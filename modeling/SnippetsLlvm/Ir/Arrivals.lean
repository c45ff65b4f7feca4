import SnippetsLlvm.Ir.Steps

/-!
# Where control arrives

Control comes to a frame in few ways: a function is entered, a branch or an exception leads to a block, a call or an
invocation comes back.  In each of them the frame then stands at the front of a block or just after a call.  What holds
there holds wherever control arrives.

* `Arrives` — a predicate on frames that holds at the front of every block and after every call;
* `Arrives.deliver`, `Arrives.returnTo`, `Arrives.unwind`, `Arrives.envStep` — **it holds of the frame that goes on**.
-/

namespace SnippetsLlvm.Ir

open SnippetsLlvm.Library

variable {M : Module} {D : DataOps} {P : Frame D → Prop}

/-- The predicate holds at the front of every block and after every call. -/
structure Arrives (M : Module) (P : Frame D → Prop) : Prop where
  front : ∀ (fr : Frame D) B, M.block? fr.fn fr.block = some B → fr.todo = B.insts → P fr
  resumed : ∀ (fr : Frame D) (site : Instruction) ft mt v, fr.WaitsAt M site → site.opcode = .call ft mt →
    P (fr.set site.id v)

/-- The predicate holds of the frame that runs, if there is one. -/
def Control.Runs (P : Frame D → Prop) : Control D → Prop
  | .exec fr => P fr
  | _ => True

namespace Arrives

variable (hP : Arrives M P)
include hP

theorem deliver {fr fr' : Frame D} {site : Instruction} {v : Val D.Data} (hw : fr.WaitsAt M site)
    (hd : M.deliver fr site v = some fr') : P fr' := by
  rcases deliver_inv hd with ⟨ft, mt, hop, rfl⟩ | ⟨-, B, hB, ht, hfn, hb⟩
  · exact hP.resumed fr site ft mt v hw hop
  · exact hP.front fr' B hB ht

theorem jump {fr fr' : Frame D} {b : ℕ} {pad : Option (Val D.Data)} (hj : M.jump fr b pad = some fr') : P fr' := by
  obtain ⟨B, hB, ht, -⟩ := jump_inv hj
  exact hP.front fr' B hB ht

theorem enter {g : ℕ} {F : Function} {args : List (Val D.Data)} {fr : Frame D} (hF : M.function? g = some F)
    (h : F.enter args = some fr) : P fr := by
  obtain ⟨E, -, hE, ht, -⟩ := enter_inv hF h
  exact hP.front fr E hE ht

/-- Wherever a returned value goes. -/
theorem returnTo {s : State D} {v : Val D.Data} {r : Control D × List (Cont D)} (hs : Positioned M s)
    (h : M.returnTo v s.conts = some r) : r.1.Runs P := by
  have hc := return_cases h
  generalize hks : s.conts = ks at hc
  cases hc with
  | frame hd => exact hP.deliver (hs.conts _ _ (by rw [hks]; exact .head _)) hd
  | main => trivial
  | env => trivial

/-- Wherever an exception goes. -/
theorem unwind {ks : List (Cont D)} {exn : Val D.Data} {r : Control D × List (Cont D)}
    (h : M.unwind exn ks = some r) : r.1.Runs P := by
  cases unwind_cases h with
  | caught _ _ _ hj => exact hP.jump hj
  | _ => trivial

/-- Whatever the environment starts. -/
theorem envStep {s s' : State D} {k : EnvKind} {a : Act D} (hs : Positioned M s) (hk : s.control = .env k)
    (h : M.envStep s k a = some s') : s'.control.Runs P := by
  cases env_cases h with
  | ret hconts hd => exact hP.deliver (hs.conts _ _ (by rw [hconts]; exact .head _)) hd
  | callback hF hfr => exact hP.enter hF hfr
  | runMain _ hF hfr => exact hP.enter hF hfr
  | runHandler _ hF hfr => exact hP.enter hF hfr
  | write =>
    show s.control.Runs P
    rw [hk]
    trivial
  | malloc =>
    show s.control.Runs P
    rw [hk]
    trivial
  | skipHandler =>
    show s.control.Runs P
    rw [hk]
    trivial
  | _ => trivial

end Arrives

end SnippetsLlvm.Ir
