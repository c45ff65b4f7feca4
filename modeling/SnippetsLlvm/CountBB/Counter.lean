import SnippetsLlvm.CountBB.Layout
import SnippetsLlvm.Ir.Steps
import SnippetsLlvm.Ir.Verifier
import SnippetsLlvm.Ir.WordData

/-!
# The counter invariant

The counter is one 64-bit cell, loaded, increased and stored back by three instructions before every
terminator.  Along a run of an instrumented module `Phase` says where the running frame stands with respect
to these three, and what the cell then holds, given the number of terminators begun so far:

* before the load, and everywhere in the handler, the cell holds that number;
* after the load and after the addition it still does, and the local value of the counting code is that
  number and that number plus one;
* before the terminator it holds one more.

Only a call can suspend a frame, and none of the three instructions is a call, so a waiting frame is
always in the first phase; with `Positioned` this needs no invariant of its own.

* `step_counter` — one step keeps the phase;
* `counter_invariant` — the counter along every run.
-/

namespace SnippetsLlvm.CountBB

open SnippetsLlvm.Ir SnippetsLlvm.Library

/-! ### Counting terminators -/

/-- Whether an event begins a terminator in a block of a function other than `h`. -/
def beginsTerminator {D : DataOps} (h : ℕ) : Event D → Bool
  | .exec fn _ insts _ => fn ≠ h && insts.any Instruction.isTerminator
  | _ => false

/-- The number of terminator executions begun outside the function `h`. -/
def terminatorsBegun {D : DataOps} (h : ℕ) (es : List (Event D)) : ℕ :=
  es.countP (beginsTerminator h)

/-- The event leaves the global `c` alone: no instruction of the original module accesses it, and the
environment does not write it. -/
def Undisturbed {D : DataOps} (M : Module) (c : ℕ) : Event D → Prop
  | .exec fn _ insts vs => ∀ I ∈ insts, I.opcode.kind = .memory → IsOriginal M fn I →
      ∀ off, vs[I.pointerIndex]? ≠ some (.ptr (.global c) off)
  | .act _ (.write eff) => eff (.global c) = none
  | _ => True

/-! ### The phases of a frame -/

section Phases

variable {M : Module} {main : Function} {D : DataSem}

/-- Where a frame stands in the block `b` of the function `g`, and what the counter cell holds there when
`T` terminators have begun. -/
inductive Phase (M : Module) (main : Function) (T g b : ℕ) (todo : List Instruction)
    (locals : ℕ → Option (Val D.Data)) : BitVec 64 → Prop where
  | report : g = handlerId M → Phase M main T g b todo locals (BitVec.ofNat 64 T)
  | counting (K : Counted M g b) (pre post) : g ≠ handlerId M →
      frontInsts M main g b ++ K.body = pre ++ post →
      todo = post ++ countInsts K.first (counter M) ++ [K.term] →
      Phase M main T g b todo locals (BitVec.ofNat 64 T)
  | adding (K : Counted M g b) : g ≠ handlerId M →
      todo = [newCounter K.first (counter M), storeCounter K.first (counter M), K.term] →
      locals K.first = some (.int 64 (BitVec.ofNat 64 T)) →
      Phase M main T g b todo locals (BitVec.ofNat 64 T)
  | storing (K : Counted M g b) : g ≠ handlerId M →
      todo = [storeCounter K.first (counter M), K.term] →
      locals (K.first + 1) = some (.int 64 (BitVec.ofNat 64 (T + 1))) →
      Phase M main T g b todo locals (BitVec.ofNat 64 T)
  | leaving (K : Counted M g b) : g ≠ handlerId M → todo = [K.term] →
      Phase M main T g b todo locals (BitVec.ofNat 64 (T + 1))

/-- What the counter cell holds, by what runs. -/
def ControlPhase (M : Module) (main : Function) (T : ℕ) (x : BitVec 64) : Control D.toDataOps → Prop
  | .exec fr => Phase M main T fr.fn fr.block fr.todo fr.locals x
  | _ => x = BitVec.ofNat 64 T

/-- The counter invariant of a state in which `T` terminators have begun. -/
structure CounterInv (M : Module) (main : Function) (T : ℕ) (s : State D.toDataOps) : Prop where
  positioned : Positioned (instrumented M main (counter M)) s
  cell : ∃ c x, s.mem (.global (counter M).id) = some c ∧ D.Holds64 c x ∧
    ControlPhase M main T x s.control

/-- A suffix that starts with none of the instructions of `X` starts before `X`. -/
theorem split_before {pre A X todo : List Instruction} {I : Instruction}
    (h : pre ++ I :: todo = A ++ X) (hI : I ∉ X) :
    ∃ post, A = pre ++ I :: post ∧ todo = post ++ X := by
  rcases List.append_eq_append_iff.mp h with ⟨l, hA, hl⟩ | ⟨l, hpre, hX⟩
  · cases l with
    | nil =>
      rw [List.nil_append] at hl
      exact absurd (hl ▸ List.mem_cons_self) hI
    | cons J l =>
      rw [List.cons_append, List.cons.injEq] at hl
      obtain ⟨rfl, rfl⟩ := hl
      exact ⟨l, hA, rfl⟩
  · exact absurd (hX ▸ List.mem_append_right l List.mem_cons_self) hI

/-- The first instruction of a running frame, by the phase of the frame, with what follows once it is
executed. -/
inductive AtFront (M : Module) (main : Function) (T g b : ℕ) (locals : ℕ → Option (Val D.Data))
    (I : Instruction) (rest : List Instruction) : BitVec 64 → Prop where
  | report : g = handlerId M → AtFront M main T g b locals I rest (BitVec.ofNat 64 T)
  | plain : g ≠ handlerId M → I.isTerminator = false →
      (I.opcode.kind = .memory → IsOriginal M g I) →
      (∀ locals' : ℕ → Option (Val D.Data), Phase M main T g b rest locals' (BitVec.ofNat 64 T)) →
      AtFront M main T g b locals I rest (BitVec.ofNat 64 T)
  | load {n} : g ≠ handlerId M → I = oldCounter n (counter M) →
      (∀ locals' : ℕ → Option (Val D.Data), locals' n = some (.int 64 (BitVec.ofNat 64 T)) →
        Phase M main T g b rest locals' (BitVec.ofNat 64 T)) →
      AtFront M main T g b locals I rest (BitVec.ofNat 64 T)
  | add {n} : g ≠ handlerId M → I = newCounter n (counter M) →
      locals n = some (.int 64 (BitVec.ofNat 64 T)) →
      (∀ locals' : ℕ → Option (Val D.Data), locals' (n + 1) = some (.int 64 (BitVec.ofNat 64 (T + 1))) →
        Phase M main T g b rest locals' (BitVec.ofNat 64 T)) →
      AtFront M main T g b locals I rest (BitVec.ofNat 64 T)
  | store {n} : g ≠ handlerId M → I = storeCounter n (counter M) →
      locals (n + 1) = some (.int 64 (BitVec.ofNat 64 (T + 1))) →
      (∀ locals' : ℕ → Option (Val D.Data), Phase M main T g b rest locals' (BitVec.ofNat 64 (T + 1))) →
      AtFront M main T g b locals I rest (BitVec.ofNat 64 T)
  | leave : g ≠ handlerId M → I.isTerminator = true →
      AtFront M main T g b locals I rest (BitVec.ofNat 64 (T + 1))

theorem Phase.atFront {T g b : ℕ} {locals : ℕ → Option (Val D.Data)} {x : BitVec 64}
    {I : Instruction} {rest : List Instruction} (h : Phase M main T g b (I :: rest) locals x) :
    AtFront M main T g b locals I rest x := by
  cases h with
  | report hfn => exact .report hfn
  | counting K pre post hfn hsplit htodo =>
    cases post with
    | nil =>
      simp only [countInsts, List.nil_append, List.cons_append, List.cons.injEq] at htodo
      exact .load hfn htodo.1 fun _ hl => .adding K hfn htodo.2 hl
    | cons J post =>
      simp only [List.cons_append, List.cons.injEq] at htodo
      obtain ⟨rfl, hrest⟩ := htodo
      have hmem : I ∈ frontInsts M main g b ++ K.body := by
        rw [hsplit]
        exact List.mem_append_right _ List.mem_cons_self
      refine .plain hfn ?_ ?_ fun _ => ?_
      · rcases List.mem_append.mp hmem with hmem | hmem
        · rw [eq_of_mem_frontInsts hmem]
          rfl
        · exact K.plain I hmem
      · intro hk
        rcases List.mem_append.mp hmem with hmem | hmem
        · rw [eq_of_mem_frontInsts hmem] at hk
          cases hk
        · exact K.isOriginal (List.mem_append_left _ hmem)
      · refine .counting K (pre ++ [I]) post hfn ?_ hrest
        rw [hsplit, List.append_assoc, List.singleton_append]
  | adding K hfn htodo hl =>
    rw [List.cons.injEq] at htodo
    exact .add hfn htodo.1 hl fun _ hl' => .storing K hfn htodo.2 hl'
  | storing K hfn htodo hl =>
    rw [List.cons.injEq] at htodo
    exact .store hfn htodo.1 hl fun _ => .leaving K hfn htodo.2
  | leaving K hfn htodo =>
    rw [List.cons.injEq] at htodo
    exact .leave hfn (htodo.1 ▸ K.isTerminator)

/-- Phi nodes stand in front of the counting code. -/
theorem Phase.dropPhis {T g b : ℕ} {todo rest : List Instruction}
    {locals locals' : ℕ → Option (Val D.Data)} {I : Instruction} {x : BitVec 64}
    (h : Phase M main T g b todo locals x) (hphi : I.isPhi = true) (ht : todo = I :: rest) :
    Phase M main T g b (todo.dropWhile Instruction.isPhi) locals' x := by
  cases h with
  | report hg => exact .report hg
  | counting K pre post hg hsplit htodo =>
    refine .counting K (pre ++ post.takeWhile Instruction.isPhi)
      (post.dropWhile Instruction.isPhi) hg ?_ ?_
    · rw [hsplit, List.append_assoc, List.takeWhile_append_dropWhile]
    · rw [htodo, List.append_assoc, List.append_assoc, List.dropWhile_append]
      split
      · rename_i hnil
        rw [List.isEmpty_iff.mp hnil]
        rfl
      · rfl
  | adding K hg htodo =>
    rw [ht, List.cons.injEq] at htodo
    rw [htodo.1] at hphi
    cases hphi
  | storing K hg htodo =>
    rw [ht, List.cons.injEq] at htodo
    rw [htodo.1] at hphi
    cases hphi
  | leaving K hg htodo =>
    rw [ht, List.cons.injEq] at htodo
    have hterm := K.isTerminator
    rw [← htodo.1, isTerminator_of_isPhi hphi] at hterm
    cases hterm

end Phases

/-! ### The events -/

section Events

variable {D : DataOps} {h fn b : ℕ} {vs : List (Val D.Data)}

theorem beginsTerminator_self (is : List Instruction) :
    beginsTerminator h (.exec h b is vs : Event D) = false := by
  simp [beginsTerminator]

theorem beginsTerminator_plain {I : Instruction} (hI : I.isTerminator = false) :
    beginsTerminator h (.exec fn b [I] vs : Event D) = false := by
  simp [beginsTerminator, hI]

theorem beginsTerminator_of_isTerminator {I : Instruction} (hfn : fn ≠ h)
    (hI : I.isTerminator = true) : beginsTerminator h (.exec fn b [I] vs : Event D) = true := by
  simp [beginsTerminator, hI, hfn]

theorem beginsTerminator_phis (is : List Instruction) :
    beginsTerminator h (.exec fn b (is.takeWhile Instruction.isPhi) vs : Event D) = false := by
  have hphi : ∀ I ∈ is.takeWhile Instruction.isPhi, I.isTerminator = false := fun I hI =>
    isTerminator_of_isPhi (List.all_eq_true.mp List.all_takeWhile I hI)
  have hany : (is.takeWhile Instruction.isPhi).any Instruction.isTerminator = false := by
    simpa using hphi
  simp [beginsTerminator, hany]

theorem beginsTerminator_env (s : State D) (a : Act D) :
    beginsTerminator h (envEvent s a) = false := by
  cases a <;> rfl

theorem terminatorsBegun_snoc (es : List (Event D)) (e : Event D) :
    terminatorsBegun h (es ++ [e]) = terminatorsBegun h es + (beginsTerminator h e).toNat := by
  rw [terminatorsBegun, terminatorsBegun, List.countP_append, List.countP_singleton]
  cases beginsTerminator h e <;> rfl

end Events

/-! ### The counting code -/

section Code

variable {M : Module} {D : DataOps} (fr : Frame D) (n : ℕ) (c : GlobalVariable)

theorem operandVals_oldCounter :
    M.operandVals fr (oldCounter n c) = some [.ptr (.global c.id) 0] := by
  simp [Module.operandVals, oldCounter, Module.operandVal, GlobalVariable.ref]

theorem operandVals_newCounter {v : Val D.Data} (h : fr.locals n = some v) :
    M.operandVals fr (newCounter n c) = some [v, .int 64 1#64] := by
  simp [Module.operandVals, newCounter, oldCounter, Instruction.ref, Module.operandVal, h]

theorem operandVals_storeCounter {v : Val D.Data} (h : fr.locals (n + 1) = some v) :
    M.operandVals fr (storeCounter n c) = some [v, .ptr (.global c.id) 0] := by
  simp [Module.operandVals, storeCounter, newCounter, Instruction.ref, Module.operandVal, h,
    GlobalVariable.ref]

end Code

/-! ### The steps -/

/-- Before an instruction that transfers control the cell holds the number of terminators begun, the one
that is beginning included. -/
theorem AtFront.settled {M : Module} {main : Function} {D : DataSem} {T g b : ℕ}
    {locals : ℕ → Option (Val D.Data)} {I : Instruction} {rest : List Instruction} {x : BitVec 64}
    (h : AtFront M main T g b locals I rest x)
    (hk : I.opcode.kind = .call ∨ I.opcode.kind = .ret ∨ I.opcode.kind = .transfer)
    (vs : List (Val D.Data)) :
    x = BitVec.ofNat 64
      (T + (beginsTerminator (handlerId M) (.exec g b [I] vs : Event D.toDataOps)).toNat) := by
  cases h with
  | report hg => subst hg; rw [beginsTerminator_self]; rfl
  | plain _ hI => rw [beginsTerminator_plain hI]; rfl
  | load _ hI => subst hI; rcases hk with hk | hk | hk <;> cases hk
  | add _ hI => subst hI; rcases hk with hk | hk | hk <;> cases hk
  | store _ hI => subst hI; rcases hk with hk | hk | hk <;> cases hk
  | leave hg hI => rw [beginsTerminator_of_isTerminator hg hI]; rfl

namespace Ready

variable {M : Module} {main : Function} (hM : Ready M main) {D : DataSem}
include hM

/-- At the front of any block the counter is up to date. -/
theorem phase_of_block {T g b : ℕ} {B : BasicBlock} (locals : ℕ → Option (Val D.Data))
    (hB : (instrumented M main (counter M)).block? g b = some B) :
    Phase M main T g b B.insts locals (BitVec.ofNat 64 T) := by
  by_cases hg : g = handlerId M
  · exact .report hg
  · obtain ⟨K, hK⟩ := hM.block?_inv hg hB
    exact .counting K [] _ hg rfl hK

/-- After a call came back the counter is up to date: the counting code makes no call, so it still lies
ahead. -/
theorem phase_of_call {T : ℕ} {fr : Frame D.toDataOps} {site : Instruction}
    (hw : fr.WaitsAt (instrumented M main (counter M)) site) {ft : FunctionType} {mt : Bool}
    (hop : site.opcode = .call ft mt) (locals : ℕ → Option (Val D.Data)) :
    Phase M main T fr.fn fr.block fr.todo locals (BitVec.ofNat 64 T) := by
  obtain ⟨B, hB, pre, hpre⟩ := hw
  by_cases hg : fr.fn = handlerId M
  · exact .report hg
  · obtain ⟨K, hK⟩ := hM.block?_inv hg hB
    rw [hpre, Counted.insts, List.append_assoc] at hK
    have hnot : site ∉ countInsts K.first (counter M) ++ [K.term] := by
      intro hmem
      simp only [countInsts, List.cons_append, List.nil_append, List.mem_cons, List.not_mem_nil,
        or_false] at hmem
      rcases hmem with rfl | rfl | rfl | rfl
      · cases hop
      · cases hop
      · cases hop
      · have := K.isTerminator
        rw [Instruction.isTerminator, hop] at this
        cases this
    obtain ⟨post, hsplit, htodo⟩ := split_before hK hnot
    refine .counting K (pre ++ [site]) post hg ?_ ?_
    · rw [hsplit, List.append_assoc, List.singleton_append]
    · rw [htodo, List.append_assoc]

/-- Wherever a delivered result resumes, the counter is up to date. -/
theorem phase_of_deliver {T : ℕ} {fr fr' : Frame D.toDataOps} {site : Instruction}
    {v : Val D.Data} (hw : fr.WaitsAt (instrumented M main (counter M)) site)
    (hd : (instrumented M main (counter M)).deliver fr site v = some fr') :
    Phase M main T fr'.fn fr'.block fr'.todo fr'.locals (BitVec.ofNat 64 T) := by
  rcases deliver_inv hd with ⟨ft, mt, hop, rfl⟩ | ⟨-, B, hB, ht, -, -⟩
  · exact hM.phase_of_call hw hop _
  · rw [ht]
    exact hM.phase_of_block _ hB

/-- Wherever a returned value goes, the counter is up to date. -/
theorem phase_of_return {T : ℕ} {s : State D.toDataOps} {v : Val D.Data}
    {r : Control D.toDataOps × List (Cont D.toDataOps)}
    (hs : Positioned (instrumented M main (counter M)) s)
    (h : (instrumented M main (counter M)).returnTo v s.conts = some r) :
    ControlPhase M main T (BitVec.ofNat 64 T) r.1 := by
  have hc := return_cases h
  generalize hks : s.conts = ks at hc
  cases hc with
  | frame hd => exact hM.phase_of_deliver (hs.conts _ _ (by rw [hks]; exact .head _)) hd
  | main => rfl
  | env => rfl

/-- Wherever an exception goes, the counter is up to date. -/
theorem phase_of_unwind {T : ℕ} {ks : List (Cont D.toDataOps)} {exn : Val D.Data}
    {r : Control D.toDataOps × List (Cont D.toDataOps)}
    (h : (instrumented M main (counter M)).unwind exn ks = some r) :
    ControlPhase M main T (BitVec.ofNat 64 T) r.1 := by
  cases unwind_cases h with
  | caught _ _ _ hj =>
    obtain ⟨B, hB, ht, -⟩ := jump_inv hj
    rw [ControlPhase, ht]
    exact hM.phase_of_block _ hB
  | _ => rfl

theorem phase_of_enter {T g : ℕ} {F : Function} {args : List (Val D.Data)} {fr : Frame D.toDataOps}
    (hF : (instrumented M main (counter M)).function? g = some F) (h : F.enter args = some fr) :
    ControlPhase M main T (BitVec.ofNat 64 T) (.exec fr) := by
  obtain ⟨E, -, hE, ht, -⟩ := enter_inv hF h
  rw [ControlPhase, ht]
  exact hM.phase_of_block _ hE

/-- What an action of the environment leaves of the counter. -/
theorem cell_env {T : ℕ} {s s' : State D.toDataOps} {k : EnvKind} {a : Act D.toDataOps}
    (hs : CounterInv M main T s) (hk : s.control = .env k)
    (he : Undisturbed M (counter M).id (envEvent s a))
    (h : (instrumented M main (counter M)).envStep s k a = some s') :
    ∃ c x, s'.mem (.global (counter M).id) = some c ∧ D.Holds64 c x ∧
      ControlPhase M main T x s'.control := by
  obtain ⟨c, x, hmem, hx, hph⟩ := hs.cell
  rw [hk] at hph
  obtain rfl : x = BitVec.ofNat 64 T := hph
  cases env_cases h with
  | ret hconts hd =>
    exact ⟨c, _, hmem, hx,
      hM.phase_of_deliver (hs.positioned.conts _ _ (by rw [hconts]; exact .head _)) hd⟩
  | callback hF hfr => exact ⟨c, _, hmem, hx, hM.phase_of_enter hF hfr⟩
  | runMain _ hF hfr => exact ⟨c, _, hmem, hx, hM.phase_of_enter hF hfr⟩
  | runHandler _ hF hfr => exact ⟨c, _, hmem, hx, hM.phase_of_enter hF hfr⟩
  | @write _ eff =>
    have heff : eff (.global (counter M).id) = none := he
    refine ⟨c, _, ?_, hx, by rw [hk]; rfl⟩
    simp [overwrite, hmem, heff]
  | malloc =>
    refine ⟨c, _, ?_, hx, by rw [hk]; rfl⟩
    simpa using hmem
  | skipHandler => exact ⟨c, _, hmem, hx, by rw [hk]; rfl⟩
  | throw => exact ⟨c, _, hmem, hx, rfl⟩
  | exit => exact ⟨c, _, hmem, hx, rfl⟩
  | finish => exact ⟨c, _, hmem, hx, rfl⟩
  | abort => exact ⟨c, _, hmem, hx, rfl⟩

/-- The cell after a memory access of the running frame: an original instruction does not reach it, the
handler only loads it, and the counting code loads the number of terminators begun or stores one more. -/
theorem cell_memory {T : ℕ} {s : State D.toDataOps} {fr : Frame D.toDataOps} {I : Instruction}
    {rest : List Instruction} {vs : List (Val D.Data)} {o : Obj} {off : ℤ} {d d' : D.Content}
    {v : Val D.Data} (hs : CounterInv M main T s) (hc : s.control = .exec fr)
    (ht : fr.todo = I :: rest) (hk : I.opcode.kind = .memory)
    (hvs : (instrumented M main (counter M)).operandVals fr I = some vs)
    (hptr : vs[I.pointerIndex]? = some (.ptr o off)) (hd : s.mem o = some d)
    (hacc : D.access I d off vs = some (d', v))
    (he : Undisturbed M (counter M).id (.exec fr.fn fr.block [I] vs)) :
    ∃ c x, (if Obj.global (counter M).id = o then some d' else s.mem (.global (counter M).id)) = some c ∧
      D.Holds64 c x ∧
      Phase M main T fr.fn fr.block rest ({ fr with todo := rest }.set I.id v).locals x := by
  obtain ⟨c, x, hmem, hx, hph⟩ := hs.cell
  rw [hc, ControlPhase, ht] at hph
  -- the accesses that read the cell or leave it alone
  have hkeep : (Obj.global (counter M).id = o → d' = d) →
      (if Obj.global (counter M).id = o then some d' else s.mem (.global (counter M).id)) = some c := by
    intro h
    split
    · rename_i ho
      rw [h ho, ← hd, ← ho, hmem]
    · exact hmem
  cases hph.atFront with
  | report hg =>
    refine ⟨c, _, hkeep fun ho => ?_, hx, .report hg⟩
    obtain ⟨B, hB, pre, hpre⟩ := hs.positioned.control fr hc
    rw [hg] at hB
    have hmemI : I ∈ B.insts := by
      rw [hpre, ht]
      exact List.mem_append_right _ List.mem_cons_self
    rw [hM.block?_handler hB] at hmemI
    simp only [reportBlock, List.mem_cons, List.not_mem_nil, or_false] at hmemI
    rcases hmemI with rfl | rfl | rfl
    · have hop : (instrumented M main (counter M)).operandVals fr (handlerLoad 0 (counter M)) =
          some [.ptr (.global (counter M).id) 0] := operandVals_oldCounter fr 0 (counter M)
      rw [hop, Option.some.injEq] at hvs
      subst hvs
      cases hptr
      rw [hmem, Option.some.injEq] at hd
      subst hd
      have hld := hx (handlerLoad 0 (counter M)) [.ptr (.global (counter M).id) 0] rfl (counter_valueType M)
      rw [hld, Option.some.injEq, Prod.mk.injEq] at hacc
      exact hacc.1.symm
    · cases hk
    · cases hk
  | plain hg _ horig hnext =>
    refine ⟨c, _, hkeep fun ho => ?_, hx, hnext _⟩
    exact absurd (ho ▸ hptr) (he I (by simp) hk (horig hk) off)
  | @load n hg hI hnext =>
    subst hI
    rw [operandVals_oldCounter, Option.some.injEq] at hvs
    subst hvs
    cases hptr
    rw [hmem, Option.some.injEq] at hd
    subst hd
    have hld := hx (oldCounter n (counter M)) [.ptr (.global (counter M).id) 0] rfl (counter_valueType M)
    rw [hld, Option.some.injEq, Prod.mk.injEq] at hacc
    obtain ⟨rfl, rfl⟩ := hacc
    exact ⟨c, _, hkeep fun _ => rfl, hx, hnext _ (by simp [Frame.set, oldCounter])⟩
  | add _ hI => subst hI; cases hk
  | @store n hg hI hl hnext =>
    subst hI
    rw [operandVals_storeCounter fr n (counter M) hl, Option.some.injEq] at hvs
    subst hvs
    cases hptr
    rw [hmem, Option.some.injEq] at hd
    subst hd
    obtain ⟨c', hst, hx'⟩ := D.store_i64 (storeCounter n (counter M)) c _
      (BitVec.ofNat 64 (T + 1)) (.ptr (.global (counter M).id) 0) hx rfl
    rw [hst, Option.some.injEq, Prod.mk.injEq] at hacc
    obtain ⟨rfl, rfl⟩ := hacc
    exact ⟨c', _, if_pos rfl, hx', hnext _⟩
  | leave _ hI =>
    rcases kind_of_isTerminator hI with h | h | h <;> rw [h] at hk <;> cases hk

omit hM in
/-- The phase after an instruction that computes a value. -/
theorem phase_value {T : ℕ} {fr : Frame D.toDataOps} {I : Instruction} {rest : List Instruction}
    {vs : List (Val D.Data)} {v : Val D.Data} {x : BitVec 64}
    (hph : AtFront M main T fr.fn fr.block fr.locals I rest x) (hk : I.opcode.kind = .value)
    (hvs : (instrumented M main (counter M)).operandVals fr I = some vs)
    (hv : D.eval I fr.pad vs = some v) :
    Phase M main T fr.fn fr.block rest ({ fr with todo := rest }.set I.id v).locals x := by
  cases hph with
  | report hg => exact .report hg
  | plain _ _ _ hnext => exact hnext _
  | load _ hI => subst hI; cases hk
  | @add n hg hI hl hnext =>
    subst hI
    rw [operandVals_newCounter fr n (counter M) hl, Option.some.injEq] at hvs
    subst hvs
    rw [D.eval_add _ _ _ _ rfl (counter_valueType M), Option.some.injEq] at hv
    subst hv
    refine hnext _ ?_
    simp [Frame.set, newCounter, BitVec.ofNat_add]
  | store _ hI => subst hI; cases hk
  | leave _ hI => rcases kind_of_isTerminator hI with h | h | h <;> rw [h] at hk <;> cases hk

/-- **One step keeps the counter invariant.** -/
theorem step_counter {T : ℕ} {s s' : State D.toDataOps} {a : Act D.toDataOps}
    {e : Event D.toDataOps} (hs : CounterInv M main T s) (he : Undisturbed M (counter M).id e)
    (h : (instrumented M main (counter M)).step s a = some (e, s')) :
    CounterInv M main (T + (beginsTerminator (handlerId M) e).toNat) s' := by
  refine ⟨step_positioned hs.positioned h, ?_⟩
  -- an instruction that computes, allocates or accesses memory is no terminator
  have hzero : ∀ {fr : Frame D.toDataOps} {I : Instruction} {vs}, I.opcode.kind = .value ∨
      I.opcode.kind = .alloca ∨ I.opcode.kind = .memory →
      beginsTerminator (handlerId M) (.exec fr.fn fr.block [I] vs : Event D.toDataOps) = false := by
    intro fr I vs hk
    refine beginsTerminator_plain (Bool.eq_false_iff.mpr fun ht => ?_)
    rcases kind_of_isTerminator ht with h | h | h <;> simp [h] at hk
  obtain ⟨c, x, hmem, hx, hph⟩ := hs.cell
  cases step_cases h with
  | @phis fr I rest vs hc ht hphi =>
    rw [hc] at hph
    rw [beginsTerminator_phis]
    refine ⟨c, x, hmem, hx, ?_⟩
    rw [ControlPhase, Frame.setAll_fn, Frame.setAll_block]
    exact hph.dropPhis hphi ht
  | @value fr I rest vs v hc ht hk hvs hv =>
    rw [hc, ControlPhase, ht] at hph
    rw [hzero (.inl hk)]
    exact ⟨c, x, hmem, hx, phase_value hph.atFront hk hvs hv⟩
  | @alloca fr I rest vs d hc ht hk hvs hd =>
    rw [hc, ControlPhase, ht] at hph
    rw [hzero (.inr (.inl hk))]
    refine ⟨c, x, by simpa using hmem, hx, ?_⟩
    cases hph.atFront with
    | report hg => exact .report hg
    | plain _ _ _ hnext => exact hnext _
    | load _ hI => subst hI; cases hk
    | add _ hI => subst hI; cases hk
    | store _ hI => subst hI; cases hk
    | leave _ hI => rcases kind_of_isTerminator hI with h | h | h <;> rw [h] at hk <;> cases hk
  | memory hc ht hk hvs hptr hd hacc =>
    rw [hzero (.inr (.inr hk))]
    exact hM.cell_memory hs hc ht hk hvs hptr hd hacc he
  | @register fr I rest vs a A g fr' hc ht hk _ _ _ _ _ _ hd =>
    rw [hc, ControlPhase, ht] at hph
    obtain rfl := hph.atFront.settled (.inl hk) vs
    exact ⟨c, _, hmem, hx, hM.phase_of_deliver ((hs.positioned.control _ hc).waits ht) hd⟩
  | callOut hc ht hk =>
    rw [hc, ControlPhase, ht] at hph
    exact ⟨c, x, hmem, hx, hph.atFront.settled (.inl hk) _⟩
  | @callIn fr I rest vs a A fr' hc ht hk _ _ hA hfr =>
    rw [hc, ControlPhase, ht] at hph
    obtain rfl := hph.atFront.settled (.inl hk) vs
    exact ⟨c, _, hmem, hx, hM.phase_of_enter hA hfr⟩
  | @ret fr I rest vs r hc ht hk _ hr =>
    rw [hc, ControlPhase, ht] at hph
    obtain rfl := hph.atFront.settled (.inr (.inl hk)) vs
    exact ⟨c, _, hmem, hx, hM.phase_of_return hs.positioned hr⟩
  | @goto fr I rest vs b pad fr' hc ht hk _ _ hj =>
    rw [hc, ControlPhase, ht] at hph
    obtain rfl := hph.atFront.settled (.inr (.inr hk)) vs
    refine ⟨c, _, hmem, hx, ?_⟩
    obtain ⟨B, hB, htodo, -⟩ := jump_inv hj
    rw [ControlPhase, htodo]
    exact hM.phase_of_block _ hB
  | raise hc ht hk =>
    rw [hc, ControlPhase, ht] at hph
    exact ⟨c, x, hmem, hx, hph.atFront.settled (.inr (.inr hk)) _⟩
  | unwind hc hr =>
    rw [hc] at hph
    obtain rfl : x = BitVec.ofNat 64 T := hph
    exact ⟨c, _, hmem, hx, hM.phase_of_unwind hr⟩
  | env hk henv =>
    rw [beginsTerminator_env]
    exact hM.cell_env hs hk he henv

/-- Before the program starts the counter is zero. -/
theorem counterInv_init (imports : ℕ → Option D.Content) :
    CounterInv M main 0 ((instrumented M main (counter M)).initState imports) := by
  refine ⟨initState_positioned _ _, D.init .i64 (.int 64 0), BitVec.ofNat 64 0, ?_, D.init_i64 0, rfl⟩
  simp only [Module.initState, hM.global?_counter, Option.bind_some]
  rw [hM.counter_eq]

/-- The counter invariant along a run. -/
theorem run_counter {imports : ℕ → Option D.Content} {es : List (Event D.toDataOps)}
    {s : State D.toDataOps}
    (hrun : Run (instrumented M main (counter M)).step
      ((instrumented M main (counter M)).initState imports) es s)
    (hes : ∀ e ∈ es, Undisturbed M (counter M).id e) :
    CounterInv M main (terminatorsBegun (handlerId M) es) s := by
  refine Run.traceInvariant (fun es s => CounterInv M main (terminatorsBegun (handlerId M) es) s)
    (Undisturbed M (counter M).id) (fun es s a e s' hs he h => ?_) hrun hes (hM.counterInv_init imports)
  rw [terminatorsBegun_snoc]
  exact hM.step_counter hs he h

end Ready

/-- **The counter counts terminators.**  On every run of the instrumented module, when the next instruction
is an original one that is no terminator, or the first one of the handler, the counter holds the number of
terminators begun in blocks of other functions. -/
theorem counter_eq_terminatorsBegun {M M' : Module} {main H : Function} {C : GlobalVariable}
    {D : DataSem} {imports : ℕ → Option D.Content} {es : List (Event D.toDataOps)}
    {s : State D.toDataOps} {fr : Frame D.toDataOps} {I : Instruction} {rest : List Instruction}
    (hM : Ready M main) (hM' : runOnModule M = .ok M')
    (hH : M'.getFunction atexitCallStr = some H) (hC : M'.getGlobalVariable bbCounterStr = some C)
    (hrun : Run M'.step (M'.initState imports) es s) (hes : ∀ e ∈ es, Undisturbed M C.id e)
    (hfr : s.control = .exec fr) (htodo : fr.todo = I :: rest)
    (hI : (IsOriginal M fr.fn I ∧ I.isTerminator = false) ∨
      (fr.fn = H.id ∧ ∃ B, H.blocks.head? = some B ∧ fr.todo = B.insts)) :
    ∃ c, s.mem (.global C.id) = some c ∧
      D.Holds64 c (BitVec.ofNat 64 (terminatorsBegun H.id es)) := by
  obtain ⟨rfl, hid⟩ := hM.result_eq hM' hH
  rw [hM.getGlobalVariable_instrumented, Option.some.injEq] at hC
  subst hC
  obtain ⟨-, c, x, hmem, hx, hph⟩ := hM.run_counter hrun hes
  rw [hfr, ControlPhase, htodo] at hph
  rw [hid] at hI ⊢
  refine ⟨c, hmem, ?_⟩
  cases hph.atFront with
  | leave hg ht =>
    rcases hI with ⟨-, hplain⟩ | ⟨hg', -⟩
    · rw [hplain] at ht
      cases ht
    · exact absurd hg' hg
  | _ => exact hx

/-! ### A program that allocates and returns -/

/-- The events in which the environment writes memory. -/
def isWrite {D : DataOps} : Event D → Bool
  | .act _ (.write _) => true
  | _ => false

/-- A module whose instructions do not access memory leaves every global alone. -/
theorem undisturbed_of_noMemory {D : DataOps} {M : Module} {c : ℕ} {e : Event D}
    (h : ∀ F ∈ M.functions, ∀ I ∈ F.insts, I.opcode.kind ≠ .memory) (he : isWrite e = false) :
    Undisturbed M c e := by
  cases e with
  | exec fn b insts vs =>
    intro I _ hk hI
    obtain ⟨F, hF, -, hmem⟩ := hI
    exact absurd hk (h F hF I hmem)
  | act caller a =>
    cases a with
    | write eff => cases he
    | _ => trivial
  | _ => trivial

/-- `int main() { int x; return 0; }`. -/
def allocaMain : Function :=
  ⟨0, "main", ⟨.i32, [], false⟩, .external, ⟨[], []⟩, false, 0, none, none, none, none,
    [⟨0, "entry", [⟨0, .alloca .i32, .pointer .i32 0, [.const (.int 32 1)], false⟩,
      ⟨1, .ret, .void, [.const (.int 32 0)], false⟩]⟩], 2, 1⟩

/-- The module of `allocaMain`. -/
def allocaModule : Module := ⟨[allocaMain], [], [], [], [], 1, 0⟩

theorem ready_allocaModule : Ready allocaModule allocaMain where
  wf := Module.Verified.wellFormed (by decide)
  mainFn := rfl
  defined := rfl
  noCounter := by decide
  noHandler := by decide
  printf V hV := by cases hV
  atexit V hV := by cases hV

/-- `main` is run, returns, and the handler is started. -/
def allocaActs : List (Act wordSem.toDataOps) :=
  [.runMain [], .tick, .tick, .tick, .tick, .tick, .tick, .runHandler]

/-- The run of the instrumented module. -/
def allocaRun : Option (List (Event wordSem.toDataOps) × State wordSem.toDataOps) :=
  follow (instrumented allocaModule allocaMain (counter allocaModule)).step
    ((instrumented allocaModule allocaMain (counter allocaModule)).initState fun _ => none) allocaActs

theorem counter_eq_terminatorsBegun_alloca : ∃ es s, allocaRun = some (es, s) ∧
    terminatorsBegun 2 es = 1 ∧
      ∃ c, s.mem (.global 1) = some c ∧ wordSem.Holds64 c (BitVec.ofNat 64 (terminatorsBegun 2 es)) := by
  obtain ⟨⟨es, s⟩, hr⟩ : ∃ r, allocaRun = some r := Option.isSome_iff_exists.mp (by decide)
  have hcount : allocaRun.map (fun r => (terminatorsBegun 2 r.1, r.1.any isWrite)) =
      some (1, false) := by rfl
  have hcontrol : allocaRun.map (fun r => match r.2.control with
      | .exec fr => some (fr.fn, fr.todo)
      | _ => none) = some (some (2, (reportBlock 0 "entry" 0 (counter allocaModule)
        (printfId allocaModule allocaMain) (format allocaModule allocaMain)).insts)) := by rfl
  rw [hr, Option.map_some, Option.some.injEq, Prod.mk.injEq] at hcount
  rw [hr, Option.map_some, Option.some.injEq] at hcontrol
  refine ⟨es, s, hr, hcount.1, ?_⟩
  cases hc : s.control with
  | exec fr =>
    simp only [hc, Option.some.injEq, Prod.mk.injEq] at hcontrol
    refine counter_eq_terminatorsBegun ready_allocaModule ready_allocaModule.runOnModule
      ready_allocaModule.getFunction_instrumented ready_allocaModule.getGlobalVariable_instrumented
      (Run.of_follow hr) (fun e he => ?_) hc hcontrol.2 (.inr ⟨hcontrol.1, _, rfl, hcontrol.2⟩)
    refine undisturbed_of_noMemory (by decide) ?_
    simpa using List.any_eq_false.mp hcount.2 e he
  | _ => simp [hc] at hcontrol

end SnippetsLlvm.CountBB
