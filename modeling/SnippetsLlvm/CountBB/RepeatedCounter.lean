import SnippetsLlvm.CountBB.SourceBlocks
import SnippetsLlvm.CountBB.Repeated
import SnippetsLlvm.Ir.Arrivals

/-!
# The counter after any number of runs

After `k` runs every block of a program increments the variable that the name `bbCounter` finds `k` times, one
increment after the other, and so the variable grows by `k` with every terminator.  This holds whatever the names of
the pass found before: the variable may be one of the program's own, as long as the program leaves it alone.

* `Stage` — where the running frame stands in the increments of its block, and what the variable then holds;
* `step_stage`, `run_stage` — one step and a whole run keep the stage;
* `counter_eq_times` — **the variable holds what it held plus `k` times the number of terminators begun**, and that is
  what the report hands to `printf`.
-/

namespace SnippetsLlvm.CountBB

open SnippetsLlvm.Ir SnippetsLlvm.Library

/-! ### The blocks of the result -/

/-- What is left of a block, up to its counting code: instructions of the source and registrations, the counting code
drawn at each of `ns`, and the terminator. -/
structure Ahead (M : Module) (c : GlobalVariable) (g : ℕ) (todo body : List Instruction) (ns : List ℕ)
    (t : Instruction) : Prop where
  todo_eq : todo = body ++ ns.flatMap (fun n => countInsts n c) ++ [t]
  isTerminator : t.isTerminator = true
  plain : ∀ I ∈ body, I.isTerminator = false ∧ (I.opcode.kind = .memory → IsOriginal M g I)
  fresh : ∀ n ∈ ns, ∀ I ∈ countInsts n c, ¬ IsOriginal M g I

namespace Layered

variable {M N : Module} {main : Function} {c : GlobalVariable} {k : ℕ} (hL : Layered M main c k N)
  (hM : M.WellFormed) (hs : SetupCond M main)
include hL hM hs

/-- **A block of the result outside the handler** is counted `k` times. -/
theorem ahead {g b : ℕ} (hg : g ≠ handlerId M) {B' : BasicBlock} (hB' : N.block? g b = some B') :
    ∃ body ns t, Ahead M c g B'.insts body ns t ∧ ns.length = k := by
  obtain ⟨F', hF', hB'⟩ := Option.bind_eq_some_iff.mp hB'
  obtain ⟨hmem', hid'⟩ := Module.mem_of_function? hF'
  have hin : B' ∈ F'.blocks := List.mem_of_find?_eq_some hB'
  rcases hL.others F' hmem' with ⟨F, hF, hid⟩ | hid | hnil
  · have hname : F.name ≠ atexitCallStr := by
      intro heq
      exact hg (by rw [← hid', ← hid, (id_handler_iff hM hs hF).mpr heq])
    obtain ⟨F'', hF'', hid'', -, -, hblocks⟩ := hL.counted F hF hname
    obtain rfl : F'' = F' := eq_of_function_id hL.wf hF'' hmem' (hid''.trans hid)
    obtain ⟨B, hB, hcount⟩ := exists_left_of_mem hblocks hin
    obtain ⟨calls, ns, hlen, hns, -, -, hins⟩ := hcount.insts_eq
    have hwf := (hM.functions F hF).blocks B hB
    obtain ⟨hterm, hplain⟩ := dropLast_getLast hwf hwf.insts_ne_nil
    rw [List.getLast?_eq_some_getLast hwf.insts_ne_nil, Option.toList_some] at hins
    have horig : ∀ I, IsOriginal M g I → I ∈ F.insts := by
      rintro I ⟨G, hG, hGid, hI⟩
      exact eq_of_function_id hM hG hF (hGid.trans (hid'.symm.trans hid.symm)) ▸ hI
    refine ⟨_, ns, _, ⟨hins, hterm, fun I hI => ?_, fun n hn I hI hold => ?_⟩, hlen⟩
    · rcases List.mem_append.mp hI with hI | hI
      · obtain ⟨r, -, rfl⟩ := List.mem_map.mp hI
        exact ⟨rfl, fun hk => nomatch hk⟩
      · exact ⟨hplain I hI, fun _ => ⟨F, hF, hid.trans hid',
          List.mem_flatMap_of_mem hB (List.mem_of_mem_dropLast hI)⟩⟩
    · have hlt := (hM.functions F hF).valueBound I (horig I hold)
      have hge := hns n hn
      simp only [countInsts, List.mem_cons, List.not_mem_nil, or_false] at hI
      rcases hI with rfl | rfl | rfl
      · simp only [oldCounter] at hlt
        omega
      · simp only [newCounter] at hlt
        omega
      · simp only [storeCounter] at hlt
        omega
  · exact absurd (hid'.symm.trans hid) hg
  · rw [hnil] at hin
    cases hin

/-- **In the handler** memory is accessed by instructions of the source and by the loads of the reports. -/
theorem handler_memory {b : ℕ} {B' : BasicBlock} (hB' : N.block? (handlerId M) b = some B') {I : Instruction}
    (hI : I ∈ B'.insts) (hk : I.opcode.kind = .memory) : IsOriginal M (handlerId M) I ∨
      ∃ n C, I = oldCounter n C ∧ (C.id = c.id → C.valueType = .i64) := by
  obtain ⟨F', hF', hB'⟩ := Option.bind_eq_some_iff.mp hB'
  obtain ⟨hmem', hid'⟩ := Module.mem_of_function? hF'
  have hin : B' ∈ F'.blocks := List.mem_of_find?_eq_some hB'
  obtain ⟨main', hmain', hinst, -⟩ := hL.again
  have hs' := (setupCond_iff hL.wf hmain').mpr ⟨hinst.defined, hinst.handler, hinst.atexit, hinst.printf⟩
  have hname := (id_handler_iff hL.wf hs' hmem').mp (hid'.trans hL.handlerId_eq.symm)
  obtain ⟨Cs, Rs, -, hRs, hfirst, htail, hbody⟩ := hL.reports
  rw [bodyOf, getFunction_of_mem hL.wf.names hmem' hname (by decide), Option.map_some, Option.getD_some] at hbody
  rw [hbody, List.mem_append] at hin
  rcases hin with hin | hin
  · cases hH : M.getFunction atexitCallStr with
    | none =>
      rw [bodyOf, hH] at hin
      cases hin
    | some H =>
      rw [bodyOf, hH] at hin
      have hHmem := Module.mem_functions_of_getFunction hH
      exact .inl ⟨H, hHmem, (id_handler_iff hM hs hHmem).mpr (Module.name_of_getFunction hH),
        List.mem_flatMap_of_mem hin hI⟩
  · obtain ⟨C, hC, b', name, n, G, -, -, rfl⟩ := exists_left_of_mem hRs hin
    simp only [reportBlock, List.mem_cons, List.not_mem_nil, or_false] at hI
    rcases hI with rfl | rfl | rfl
    · refine .inr ⟨n, C, rfl, fun heq => ?_⟩
      cases Cs with
      | nil => cases hC
      | cons C₀ Cs =>
        rcases List.mem_cons.mp hC with rfl | hC
        · rw [List.cons_append, List.head?_cons, Option.some.injEq] at hfirst
          rw [hfirst]
          rfl
        · exact absurd heq (htail C hC)
    · cases hk
    · cases hk

end Layered

/-! ### The stages of a frame -/

/-- What the variable holds when `T` terminators have begun and `j` of the increments before the next one are made. -/
def countValue (x₀ : BitVec 64) (k T j : ℕ) : BitVec 64 := x₀ + BitVec.ofNat 64 (k * T + j)

theorem countValue_succ (x₀ : BitVec 64) (k T j : ℕ) : countValue x₀ k T j + 1#64 = countValue x₀ k T (j + 1) := by
  rw [countValue, countValue, BitVec.add_assoc, ← BitVec.ofNat_add, Nat.add_assoc]

/-- When all `k` increments are made, the terminator begins. -/
theorem countValue_full (x₀ : BitVec 64) (k T : ℕ) : countValue x₀ k T k = countValue x₀ k (T + 1) 0 := by
  rw [countValue, countValue, Nat.mul_succ, Nat.add_zero]

section Stages

variable {M N : Module} {c : GlobalVariable} {h k : ℕ} {x₀ : BitVec 64} {T : ℕ} {D : DataSem}

/-- Before the call of `printf` in a report of the variable, the value loaded is `x`. -/
def Printing (N : Module) (c : GlobalVariable) (fr : Frame D.toDataOps) (x : BitVec 64) : Prop :=
  ∀ b name n p fmt, N.block? fr.fn fr.block = some (reportBlock b name n c p fmt) →
    fr.todo = [handlerCall n c p fmt, handlerRet n] → fr.locals n = some (.int 64 x)

/-- Where the running frame stands, and what the variable holds there when `T` terminators have begun. -/
inductive Stage (M N : Module) (c : GlobalVariable) (h k : ℕ) (x₀ : BitVec 64) (T : ℕ) (fr : Frame D.toDataOps) :
    BitVec 64 → Prop where
  | handler : fr.fn = h → Printing N c fr (countValue x₀ k T 0) → Stage M N c h k x₀ T fr (countValue x₀ k T 0)
  | ahead {body ns t} : fr.fn ≠ h → Ahead M c fr.fn fr.todo body ns t → ns.length ≤ k →
      (body ≠ [] → ns.length = k) → Stage M N c h k x₀ T fr (countValue x₀ k T (k - ns.length))
  | adding {n ns rest t} : fr.fn ≠ h → fr.todo = newCounter n c :: storeCounter n c :: rest →
      Ahead M c fr.fn rest [] ns t → ns.length < k →
      fr.locals n = some (.int 64 (countValue x₀ k T (k - (ns.length + 1)))) →
      (∀ I ∈ countInsts n c, ¬ IsOriginal M fr.fn I) →
      Stage M N c h k x₀ T fr (countValue x₀ k T (k - (ns.length + 1)))
  | storing {n ns rest t} : fr.fn ≠ h → fr.todo = storeCounter n c :: rest → Ahead M c fr.fn rest [] ns t →
      ns.length < k → fr.locals (n + 1) = some (.int 64 (countValue x₀ k T (k - ns.length))) →
      (∀ I ∈ countInsts n c, ¬ IsOriginal M fr.fn I) →
      Stage M N c h k x₀ T fr (countValue x₀ k T (k - (ns.length + 1)))

/-- The next instruction of the running frame, with the stage after it. -/
inductive NextUp (M N : Module) (c : GlobalVariable) (h k : ℕ) (x₀ : BitVec 64) (T : ℕ) (fr : Frame D.toDataOps)
    (I : Instruction) (rest : List Instruction) : BitVec 64 → Prop where
  | handler : fr.fn = h → NextUp M N c h k x₀ T fr I rest (countValue x₀ k T 0)
  | plain : fr.fn ≠ h → I.isTerminator = false → (I.opcode.kind = .memory → IsOriginal M fr.fn I) →
      (∀ fr' : Frame D.toDataOps, fr'.fn = fr.fn → fr'.todo = rest →
        Stage M N c h k x₀ T fr' (countValue x₀ k T 0)) →
      NextUp M N c h k x₀ T fr I rest (countValue x₀ k T 0)
  | load {n x} : fr.fn ≠ h → I = oldCounter n c → ¬ IsOriginal M fr.fn I →
      (∀ fr' : Frame D.toDataOps, fr'.fn = fr.fn → fr'.todo = rest → fr'.locals n = some (.int 64 x) →
        Stage M N c h k x₀ T fr' x) → NextUp M N c h k x₀ T fr I rest x
  | add {n x} : fr.fn ≠ h → I = newCounter n c → ¬ IsOriginal M fr.fn I → fr.locals n = some (.int 64 x) →
      (∀ fr' : Frame D.toDataOps, fr'.fn = fr.fn → fr'.todo = rest →
        fr'.locals (n + 1) = some (.int 64 (x + 1#64)) → Stage M N c h k x₀ T fr' x) →
      NextUp M N c h k x₀ T fr I rest x
  | store {n x} : fr.fn ≠ h → I = storeCounter n c → ¬ IsOriginal M fr.fn I →
      fr.locals (n + 1) = some (.int 64 (x + 1#64)) →
      (∀ fr' : Frame D.toDataOps, fr'.fn = fr.fn → fr'.todo = rest →
        Stage M N c h k x₀ T fr' (x + 1#64)) → NextUp M N c h k x₀ T fr I rest x
  | leave : fr.fn ≠ h → I.isTerminator = true → NextUp M N c h k x₀ T fr I rest (countValue x₀ k (T + 1) 0)

/-- The stage, read off at the next instruction. -/
theorem Stage.nextUp {fr : Frame D.toDataOps} {I : Instruction} {rest : List Instruction} {x : BitVec 64}
    (hst : Stage M N c h k x₀ T fr x) (ht : fr.todo = I :: rest) : NextUp M N c h k x₀ T fr I rest x := by
  cases hst with
  | handler hfn => exact .handler hfn
  | @ahead body ns t hfn hahead hle hfull =>
    have htodo := hahead.todo_eq
    rw [ht] at htodo
    cases body with
    | cons J body =>
      simp only [List.cons_append, List.cons.injEq] at htodo
      obtain ⟨rfl, hrest⟩ := htodo
      have hlen := hfull (List.cons_ne_nil _ _)
      obtain ⟨hplain, horig⟩ := hahead.plain I List.mem_cons_self
      rw [hlen, Nat.sub_self]
      refine .plain hfn hplain horig fun fr' hfn' ht' => ?_
      have hnext : Stage M N c h k x₀ T fr' (countValue x₀ k T (k - ns.length)) :=
        .ahead (by rwa [hfn']) ⟨ht'.trans hrest, hahead.isTerminator,
          fun J hJ => hfn' ▸ hahead.plain J (List.mem_cons_of_mem I hJ), hfn' ▸ hahead.fresh⟩ hle fun _ => hlen
      rwa [hlen, Nat.sub_self] at hnext
    | nil =>
      cases ns with
      | nil =>
        simp only [List.flatMap_nil, List.nil_append, List.cons.injEq] at htodo
        rw [List.length_nil, Nat.sub_zero, countValue_full]
        exact .leave hfn (htodo.1 ▸ hahead.isTerminator)
      | cons n ns =>
        simp only [List.flatMap_cons, countInsts, List.nil_append, List.cons_append, List.cons.injEq] at htodo
        obtain ⟨rfl, hrest⟩ := htodo
        have hfresh := hahead.fresh n List.mem_cons_self
        refine .load hfn rfl (hfresh _ (by simp [countInsts])) fun fr' hfn' ht' hl => ?_
        refine .adding (by rwa [hfn']) (ht'.trans hrest)
          ⟨rfl, hahead.isTerminator, by simp, fun m hm => hfn' ▸ hahead.fresh m (List.mem_cons_of_mem n hm)⟩
          (by rw [List.length_cons] at hle; omega) hl (hfn' ▸ hfresh)
  | @adding n ns rest' t hfn htodo hahead hlt hl hfresh =>
    rw [ht, List.cons.injEq] at htodo
    obtain ⟨rfl, rfl⟩ := htodo
    refine .add hfn rfl (hfresh _ (by simp [countInsts])) hl fun fr' hfn' ht' hl' => ?_
    rw [countValue_succ, show k - (ns.length + 1) + 1 = k - ns.length by omega] at hl'
    exact .storing (by rwa [hfn']) ht' (hfn' ▸ hahead) hlt hl' (hfn' ▸ hfresh)
  | @storing n ns rest' t hfn htodo hahead hlt hl hfresh =>
    rw [ht, List.cons.injEq] at htodo
    obtain ⟨rfl, rfl⟩ := htodo
    have hsucc : countValue x₀ k T (k - (ns.length + 1)) + 1#64 = countValue x₀ k T (k - ns.length) := by
      rw [countValue_succ, show k - (ns.length + 1) + 1 = k - ns.length by omega]
    refine .store hfn rfl (hfresh _ (by simp [countInsts])) (hsucc ▸ hl) fun fr' hfn' ht' => ?_
    rw [hsucc]
    exact .ahead (by rwa [hfn']) (hfn' ▸ ht' ▸ hahead) hlt.le fun hne => absurd rfl hne

/-- Phi nodes stand in front of the counting code. -/
theorem Stage.dropPhis {fr fr' : Frame D.toDataOps} {I : Instruction} {rest : List Instruction} {x : BitVec 64}
    (hst : Stage M N c h k x₀ T fr x) (hphi : I.isPhi = true) (ht : fr.todo = I :: rest) (hfn' : fr'.fn = fr.fn)
    (ht' : fr'.todo = fr.todo.dropWhile Instruction.isPhi) (hprint : ∀ y, Printing N c fr' y) :
    Stage M N c h k x₀ T fr' x := by
  cases hst with
  | handler hfn => exact .handler (hfn'.trans hfn) (hprint _)
  | @ahead body ns t hfn hahead hle hfull =>
    have hsplit : fr'.todo =
        body.dropWhile Instruction.isPhi ++ ns.flatMap (fun n => countInsts n c) ++ [t] := by
      rw [ht', hahead.todo_eq, List.append_assoc, List.append_assoc, List.dropWhile_append]
      split
      · rename_i hnil
        rw [List.isEmpty_iff.mp hnil, List.nil_append]
        cases ns with
        | nil =>
          have hterm : t.isPhi = false := notPhi_of_isTerminator hahead.isTerminator
          simp [hterm]
        | cons n ns => rfl
      · rfl
    refine .ahead (by rwa [hfn']) ⟨hsplit, hahead.isTerminator, fun J hJ => ?_, hfn' ▸ hahead.fresh⟩ hle
      fun hne => hfull ?_
    · exact hfn' ▸ hahead.plain J ((List.dropWhile_sublist _).subset hJ)
    · intro hnil
      rw [hnil] at hne
      exact hne rfl
  | adding _ htodo =>
    rw [ht, List.cons.injEq] at htodo
    rw [htodo.1] at hphi
    cases hphi
  | storing _ htodo =>
    rw [ht, List.cons.injEq] at htodo
    rw [htodo.1] at hphi
    cases hphi

/-- Before an instruction that transfers control the variable holds `k` for each terminator begun, the one that is
beginning included. -/
theorem NextUp.settled {fr : Frame D.toDataOps} {I : Instruction} {rest : List Instruction} {x : BitVec 64}
    (hup : NextUp M N c h k x₀ T fr I rest x)
    (hk : I.opcode.kind = .call ∨ I.opcode.kind = .ret ∨ I.opcode.kind = .transfer) (vs : List (Val D.Data)) :
    x = countValue x₀ k
      (T + (beginsTerminator h (.exec fr.fn fr.block [I] vs : Event D.toDataOps)).toNat) 0 := by
  cases hup with
  | handler hfn => rw [hfn, beginsTerminator_self]; rfl
  | plain _ hI => rw [beginsTerminator_plain hI]; rfl
  | load _ hI => subst hI; rcases hk with hk | hk | hk <;> cases hk
  | add _ hI => subst hI; rcases hk with hk | hk | hk <;> cases hk
  | store _ hI => subst hI; rcases hk with hk | hk | hk <;> cases hk
  | leave hfn hI => rw [beginsTerminator_of_isTerminator hfn hI]; rfl

/-! ### In the handler -/

/-- Only the load of a report comes right before its call of `printf`. -/
theorem eq_handlerLoad {N : Module} {g b b' n p : ℕ} {name : String} {fmt : Constant} {I : Instruction}
    {pre rest : List Instruction} {B : BasicBlock} (hB : N.block? g b = some B) (hins : B.insts = pre ++ I :: rest)
    (hreport : N.block? g b = some (reportBlock b' name n c p fmt))
    (hrest : rest = [handlerCall n c p fmt, handlerRet n]) : I = handlerLoad n c := by
  rw [hB, Option.some.injEq] at hreport
  rw [hreport, hrest, reportBlock] at hins
  cases pre with
  | nil => exact (List.cons.inj hins).1.symm
  | cons J pre =>
    have hlen := congrArg List.length hins
    simp only [List.length_cons, List.length_append, List.length_nil] at hlen
    omega

/-- Nothing is about to be printed after any other instruction. -/
theorem printing_of_ne {fr : Frame D.toDataOps} {I : Instruction} {pre : List Instruction} {B : BasicBlock}
    (hB : N.block? fr.fn fr.block = some B) (hins : B.insts = pre ++ I :: fr.todo) (hI : I.opcode ≠ .load)
    (x : BitVec 64) : Printing N c fr x := by
  intro b name n p fmt hreport htodo
  rw [eq_handlerLoad hB hins hreport htodo] at hI
  exact absurd rfl hI

theorem printing_step {fr fr' : Frame D.toDataOps} {I : Instruction} {rest : List Instruction} (hat : fr.At N)
    (ht : fr.todo = I :: rest) (hI : I.opcode.kind ≠ .memory) (hfn : fr'.fn = fr.fn) (hblock : fr'.block = fr.block)
    (ht' : fr'.todo = rest) (x : BitVec 64) : Printing N c fr' x := by
  obtain ⟨B, hB, pre, hpre⟩ := hat
  rw [ht] at hpre
  refine printing_of_ne (by rw [hfn, hblock]; exact hB) (by rw [ht']; exact hpre) (fun hop => hI ?_) x
  rw [hop]
  rfl

/-- Nothing is about to be printed in a block with a phi node. -/
theorem printing_of_mem {fr : Frame D.toDataOps} {I : Instruction} {B : BasicBlock}
    (hB : N.block? fr.fn fr.block = some B) (hI : I ∈ B.insts) (hphi : I.isPhi = true) (x : BitVec 64) :
    Printing N c fr x := by
  intro b name n p fmt hreport _
  rw [hB, Option.some.injEq] at hreport
  rw [hreport, reportBlock] at hI
  simp only [List.mem_cons, List.not_mem_nil, or_false] at hI
  rcases hI with rfl | rfl | rfl <;> cases hphi

end Stages

/-! ### The steps -/

/-- What the variable holds, by what runs. -/
def ControlStage {D : DataSem} (M N : Module) (c : GlobalVariable) (k : ℕ) (x₀ : BitVec 64) (T : ℕ) (x : BitVec 64) :
    Control D.toDataOps → Prop
  | .exec fr => Stage M N c (handlerId M) k x₀ T fr x
  | _ => x = countValue x₀ k T 0

/-- The invariant of a state in which `T` terminators have begun. -/
structure TimesInv {D : DataSem} (M N : Module) (c : GlobalVariable) (k : ℕ) (x₀ : BitVec 64) (T : ℕ)
    (s : State D.toDataOps) : Prop where
  positioned : Positioned N s
  cell : ∃ d x, s.mem (.global c.id) = some d ∧ D.Holds64 d x ∧ ControlStage M N c k x₀ T x s.control

theorem controlStage_of_runs {D : DataSem} {M N : Module} {c : GlobalVariable} {k : ℕ} {x₀ : BitVec 64} {T : ℕ}
    {ctl : Control D.toDataOps}
    (h : ctl.Runs fun fr => Stage M N c (handlerId M) k x₀ T fr (countValue x₀ k T 0)) :
    ControlStage M N c k x₀ T (countValue x₀ k T 0) ctl := by
  cases ctl with
  | exec fr => exact h
  | _ => rfl

namespace Layered

variable {M N : Module} {main : Function} {c : GlobalVariable} {k : ℕ} (hL : Layered M main c k N)
  (hM : M.WellFormed) (hs : SetupCond M main) {D : DataSem} {x₀ : BitVec 64}
include hL hM hs

/-- **Wherever control arrives, the variable is up to date.** -/
theorem arrives (T : ℕ) : Arrives N fun fr : Frame D.toDataOps =>
    Stage M N c (handlerId M) k x₀ T fr (countValue x₀ k T 0) where
  front fr B hB ht := by
    by_cases hg : fr.fn = handlerId M
    · refine .handler hg fun b name n p fmt hreport htodo => ?_
      rw [hB, Option.some.injEq] at hreport
      rw [ht, hreport, reportBlock] at htodo
      cases congrArg List.length htodo
    · obtain ⟨body, ns, t, hahead, hlen⟩ := hL.ahead hM hs hg hB
      have hstage : Stage M N c (handlerId M) k x₀ T fr (countValue x₀ k T (k - ns.length)) :=
        .ahead hg (ht ▸ hahead) hlen.le fun _ => hlen
      rwa [hlen, Nat.sub_self] at hstage
  resumed fr site ft mt v hw hop := by
    obtain ⟨B, hB, pre, hpre⟩ := hw
    by_cases hg : fr.fn = handlerId M
    · have hB' : N.block? (fr.set site.id v).fn (fr.set site.id v).block = some B := hB
      exact .handler hg (printing_of_ne hB' hpre (by rw [hop]; simp) _)
    · obtain ⟨body, ns, t, hahead, hlen⟩ := hL.ahead hM hs hg hB
      have htodo := hahead.todo_eq
      rw [hpre, List.append_assoc] at htodo
      -- the call is none of the counting code, so it stands in front of all of it
      have hnot : site ∉ ns.flatMap (fun n => countInsts n c) ++ [t] := by
        intro hmem
        rcases List.mem_append.mp hmem with hmem | hmem
        · obtain ⟨n, -, hmem⟩ := List.mem_flatMap.mp hmem
          simp only [countInsts, List.mem_cons, List.not_mem_nil, or_false] at hmem
          rcases hmem with rfl | rfl | rfl <;> cases hop
        · have hterm := hahead.isTerminator
          rw [← List.mem_singleton.mp hmem, Instruction.isTerminator, hop] at hterm
          cases hterm
      obtain ⟨post, hbody, hrest⟩ := split_before htodo hnot
      have hpost : ∀ I ∈ post, I.isTerminator = false ∧ (I.opcode.kind = .memory → IsOriginal M fr.fn I) := by
        intro I hI
        exact hahead.plain I (by rw [hbody]; exact List.mem_append_right _ (List.mem_cons_of_mem _ hI))
      have hstage : Stage M N c (handlerId M) k x₀ T (fr.set site.id v) (countValue x₀ k T (k - ns.length)) :=
        .ahead hg ⟨by rw [Frame.set_todo, hrest, List.append_assoc], hahead.isTerminator, hpost, hahead.fresh⟩ hlen.le
          fun _ => hlen
      rwa [hlen, Nat.sub_self] at hstage

/-- What an action of the environment leaves of the variable. -/
theorem cell_environment {T : ℕ} {s s' : State D.toDataOps} {e : EnvKind} {a : Act D.toDataOps}
    (hinv : TimesInv M N c k x₀ T s) (he : s.control = .env e) (hleave : Undisturbed M c.id (envEvent s a))
    (h : N.envStep s e a = some s') :
    ∃ d x, s'.mem (.global c.id) = some d ∧ D.Holds64 d x ∧ ControlStage M N c k x₀ T x s'.control := by
  obtain ⟨d, x, hmem, hx, hst⟩ := hinv.cell
  rw [he] at hst
  obtain rfl : x = countValue x₀ k T 0 := hst
  refine ⟨d, _, ?_, hx, controlStage_of_runs ((hL.arrives hM hs T).envStep hinv.positioned he h)⟩
  cases env_cases h with
  | @write _ eff =>
    have heff : eff (.global c.id) = none := hleave
    simp [overwrite, hmem, heff]
  | malloc => simpa using hmem
  | _ => exact hmem

omit hL hM hs in
/-- The stage after an instruction that leaves memory alone. -/
theorem stage_value {T : ℕ} {fr : Frame D.toDataOps} {I : Instruction} {rest : List Instruction} {v : Val D.Data}
    {x : BitVec 64} (hat : fr.At N) (ht : fr.todo = I :: rest) (hst : Stage M N c (handlerId M) k x₀ T fr x)
    (hk : I.opcode.kind = .value ∨ I.opcode.kind = .alloca)
    (hadd : ∀ n y, I = newCounter n c → fr.locals n = some (.int 64 y) → v = .int 64 (y + 1#64)) :
    Stage M N c (handlerId M) k x₀ T ({ fr with todo := rest }.set I.id v) x := by
  have hmemory : I.opcode.kind ≠ .memory := by rcases hk with hk | hk <;> rw [hk] <;> simp
  have hprint : ∀ y, Printing N c ({ fr with todo := rest }.set I.id v) y :=
    printing_step hat ht hmemory rfl rfl rfl
  cases hst.nextUp ht with
  | handler hg => exact .handler hg (hprint _)
  | plain _ _ _ hnext => exact hnext _ rfl rfl
  | load _ hI => subst hI; exact absurd rfl hmemory
  | @add n x hg hI _ hl hnext =>
    obtain rfl := hadd n x hI hl
    subst hI
    exact hnext _ rfl rfl (by simp [Frame.set, newCounter])
  | store _ hI => subst hI; exact absurd rfl hmemory
  | leave _ hI => rcases kind_of_isTerminator hI with h | h | h <;> rw [h] at hk <;> rcases hk with hk | hk <;> cases hk

/-- The variable after a memory access of the running frame: an instruction of the source does not reach it, a report
only loads it, and the counting code loads it or stores one more. -/
theorem cell_access {T : ℕ} {s : State D.toDataOps} {fr : Frame D.toDataOps} {I : Instruction}
    {rest : List Instruction} {vs : List (Val D.Data)} {o : Obj} {off : ℤ} {d d' : D.Content} {v : Val D.Data}
    (hinv : TimesInv M N c k x₀ T s) (hty : c.valueType = .i64) (hc : s.control = .exec fr)
    (ht : fr.todo = I :: rest) (hk : I.opcode.kind = .memory) (hvs : N.operandVals fr I = some vs)
    (hptr : vs[I.pointerIndex]? = some (.ptr o off)) (hd : s.mem o = some d) (hacc : D.access I d off vs = some (d', v))
    (hleave : Undisturbed M c.id (.exec fr.fn fr.block [I] vs)) :
    ∃ d₁ x, (if Obj.global c.id = o then some d' else s.mem (.global c.id)) = some d₁ ∧ D.Holds64 d₁ x ∧
      Stage M N c (handlerId M) k x₀ T ({ fr with todo := rest }.set I.id v) x := by
  obtain ⟨d₀, x, hmem, hx, hst⟩ := hinv.cell
  rw [hc] at hst
  obtain ⟨B, hB, pre, hpre⟩ := hinv.positioned.control fr hc
  rw [ht] at hpre
  -- the accesses that read the variable or leave it alone
  have hkeep : (Obj.global c.id = o → d' = d) →
      (if Obj.global c.id = o then some d' else s.mem (.global c.id)) = some d₀ := by
    intro h
    split
    · rename_i ho
      rw [h ho, ← hd, ← ho, hmem]
    · exact hmem
  have horiginal : IsOriginal M fr.fn I → Obj.global c.id = o → d' = d := fun horig ho =>
    absurd (ho ▸ hptr) (hleave I (by simp) hk horig off)
  have hload : ∀ n C, I = oldCounter n C → (C.id = c.id → C.valueType = .i64) → Obj.global c.id = o →
      d' = d ∧ v = .int 64 x := by
    rintro n C rfl hC ho
    rw [operandVals_oldCounter, Option.some.injEq] at hvs
    rw [← hvs] at hptr hacc
    have hobj : Val.ptr (.global C.id) 0 = .ptr o off := Option.some.inj hptr
    rw [Val.ptr.injEq] at hobj
    obtain ⟨hobj, rfl⟩ := hobj
    rw [← ho, Obj.global.injEq] at hobj
    rw [← ho, hmem, Option.some.injEq] at hd
    have hread := hx (oldCounter n C) [.ptr (.global C.id) 0] rfl (hC hobj)
    rw [← hd, hread, Option.some.injEq, Prod.mk.injEq] at hacc
    exact ⟨hacc.1.symm.trans hd, hacc.2.symm⟩
  have hvariable : ∀ n, I = oldCounter n c → Obj.global c.id = o := by
    rintro n rfl
    rw [operandVals_oldCounter, Option.some.injEq] at hvs
    rw [← hvs] at hptr
    have hobj : Val.ptr (.global c.id) 0 = .ptr o off := Option.some.inj hptr
    rw [Val.ptr.injEq] at hobj
    exact hobj.1
  cases hst.nextUp ht with
  | handler hg =>
    refine ⟨d₀, _, hkeep fun ho => ?_, hx, .handler hg fun b name n p fmt hreport hrest => ?_⟩
    · have hmemI : I ∈ B.insts := by
        rw [hpre]
        exact List.mem_append_right _ List.mem_cons_self
      rw [hg] at hB
      rcases hL.handler_memory hM hs hB hmemI hk with horig | ⟨n, C, hI, hC⟩
      · exact horiginal (hg ▸ horig) ho
      · exact (hload n C hI hC ho).1
    · have hI : I = oldCounter n c := eq_handlerLoad hB hpre hreport hrest
      rw [(hload n c hI (fun _ => hty) (hvariable n hI)).2]
      simp [Frame.set, hI, oldCounter]
  | plain hg _ horig hnext => exact ⟨d₀, _, hkeep (horiginal (horig hk)), hx, hnext _ rfl rfl⟩
  | @load n x hg hI _ hnext =>
    obtain ⟨hsame, hv⟩ := hload n c hI (fun _ => hty) (hvariable n hI)
    exact ⟨d₀, _, hkeep fun _ => hsame, hx, hnext _ rfl rfl (by simp [Frame.set, hI, oldCounter, hv])⟩
  | add _ hI => subst hI; cases hk
  | @store n x hg hI _ hl hnext =>
    subst hI
    rw [operandVals_storeCounter fr n c hl, Option.some.injEq] at hvs
    subst hvs
    cases hptr
    rw [hmem, Option.some.injEq] at hd
    subst hd
    obtain ⟨d₁, hwrite, hd₁⟩ := D.store_i64 (storeCounter n c) d₀ _ (x + 1#64) (.ptr (.global c.id) 0) hx rfl
    rw [hwrite, Option.some.injEq, Prod.mk.injEq] at hacc
    obtain ⟨rfl, rfl⟩ := hacc
    exact ⟨d₁, _, if_pos rfl, hd₁, hnext _ rfl rfl⟩
  | leave _ hI => rcases kind_of_isTerminator hI with h | h | h <;> rw [h] at hk <;> cases hk

/-- **One step keeps the stage.** -/
theorem step_stage {T : ℕ} {s s' : State D.toDataOps} {a : Act D.toDataOps} {e : Event D.toDataOps}
    (hinv : TimesInv M N c k x₀ T s) (hty : c.valueType = .i64) (hleave : Undisturbed M c.id e)
    (h : N.step s a = some (e, s')) :
    TimesInv M N c k x₀ (T + (beginsTerminator (handlerId M) e).toNat) s' := by
  refine ⟨step_positioned hinv.positioned h, ?_⟩
  -- an instruction that computes, allocates or accesses memory is no terminator
  have hzero : ∀ {fr : Frame D.toDataOps} {I : Instruction} {vs}, I.opcode.kind = .value ∨
      I.opcode.kind = .alloca ∨ I.opcode.kind = .memory →
      beginsTerminator (handlerId M) (.exec fr.fn fr.block [I] vs : Event D.toDataOps) = false := by
    intro fr I vs hk
    refine beginsTerminator_plain (Bool.eq_false_iff.mpr fun ht => ?_)
    rcases kind_of_isTerminator ht with h | h | h <;> simp [h] at hk
  obtain ⟨d, x, hmem, hx, hst⟩ := hinv.cell
  cases step_cases h with
  | @phis fr I rest vs hc ht hphi =>
    rw [hc] at hst
    rw [beginsTerminator_phis]
    obtain ⟨B, hB, pre, hpre⟩ := hinv.positioned.control fr hc
    have hI : I ∈ B.insts := by
      rw [hpre, ht]
      exact List.mem_append_right _ List.mem_cons_self
    refine ⟨d, x, hmem, hx, Stage.dropPhis hst hphi ht (Frame.setAll_fn _ _ _) rfl fun y => ?_⟩
    exact printing_of_mem (by rw [Frame.setAll_fn, Frame.setAll_block]; exact hB) hI hphi y
  | @value fr I rest vs v hc ht hk hvs hv =>
    rw [hc] at hst
    rw [hzero (.inl hk)]
    refine ⟨d, x, hmem, hx, stage_value (hinv.positioned.control fr hc) ht hst (.inl hk) ?_⟩
    rintro n y rfl hl
    rw [operandVals_newCounter fr n c hl, Option.some.injEq] at hvs
    rw [← hvs, D.eval_add _ _ _ _ rfl hty, Option.some.injEq] at hv
    exact hv.symm
  | @alloca fr I rest vs d hc ht hk hvs hd =>
    rw [hc] at hst
    rw [hzero (.inr (.inl hk))]
    refine ⟨_, x, by simpa using hmem, hx, stage_value (hinv.positioned.control fr hc) ht hst (.inr hk) ?_⟩
    rintro n y rfl -
    cases hk
  | memory hc ht hk hvs hptr hd hacc =>
    rw [hzero (.inr (.inr hk))]
    exact hL.cell_access hM hs hinv hty hc ht hk hvs hptr hd hacc hleave
  | @register fr I rest vs a A g fr' hc ht hk _ _ _ _ _ _ hd =>
    rw [hc] at hst
    obtain rfl := (hst.nextUp ht).settled (.inl hk) vs
    exact ⟨d, _, hmem, hx, (hL.arrives hM hs _).deliver ((hinv.positioned.control _ hc).waits ht) hd⟩
  | callOut hc ht hk =>
    rw [hc] at hst
    exact ⟨d, x, hmem, hx, (hst.nextUp ht).settled (.inl hk) _⟩
  | @callIn fr I rest vs a A fr' hc ht hk _ _ hA hfr =>
    rw [hc] at hst
    obtain rfl := (hst.nextUp ht).settled (.inl hk) vs
    exact ⟨d, _, hmem, hx, (hL.arrives hM hs _).enter hA hfr⟩
  | @ret fr I rest vs r hc ht hk _ hr =>
    rw [hc] at hst
    obtain rfl := (hst.nextUp ht).settled (.inr (.inl hk)) vs
    exact ⟨d, _, hmem, hx, controlStage_of_runs ((hL.arrives hM hs _).returnTo hinv.positioned hr)⟩
  | @goto fr I rest vs b pad fr' hc ht hk _ _ hj =>
    rw [hc] at hst
    obtain rfl := (hst.nextUp ht).settled (.inr (.inr hk)) vs
    exact ⟨d, _, hmem, hx, (hL.arrives hM hs _).jump hj⟩
  | raise hc ht hk =>
    rw [hc] at hst
    exact ⟨d, x, hmem, hx, (hst.nextUp ht).settled (.inr (.inr hk)) _⟩
  | unwind hc hr =>
    rw [hc] at hst
    obtain rfl : x = countValue x₀ k T 0 := hst
    exact ⟨d, _, hmem, hx, controlStage_of_runs ((hL.arrives hM hs T).unwind hr)⟩
  | env he henv =>
    rw [beginsTerminator_env]
    exact hL.cell_environment hM hs hinv he hleave henv

/-- **Along a run** the variable grows by `k` with each terminator. -/
theorem run_stage {imports : ℕ → Option D.Content} {es : List (Event D.toDataOps)} {s : State D.toDataOps}
    {d₀ : D.Content} (hty : c.valueType = .i64) (hd₀ : (N.initState imports).mem (.global c.id) = some d₀)
    (hx₀ : D.Holds64 d₀ x₀) (hrun : Run N.step (N.initState imports) es s) (hleave : ∀ e ∈ es, Undisturbed M c.id e) :
    TimesInv M N c k x₀ (terminatorsBegun (handlerId M) es) s := by
  have hinit : TimesInv M N c k x₀ 0 (N.initState imports) := by
    refine ⟨initState_positioned _ _, d₀, x₀, hd₀, hx₀, ?_⟩
    show x₀ = countValue x₀ k 0 0
    rw [countValue, Nat.mul_zero, Nat.add_zero]
    exact (BitVec.add_zero x₀).symm
  refine Run.traceInvariant (fun es s => TimesInv M N c k x₀ (terminatorsBegun (handlerId M) es) s)
    (Undisturbed M c.id) (fun es s a e s' hinv he h => ?_) hrun hleave hinit
  rw [terminatorsBegun_snoc]
  exact hL.step_stage hM hs hinv hty he h

omit hM hs in
/-- Before the program starts the variable holds its initializer. -/
theorem initState_counter (hk : 0 < k) (hty : c.valueType = .i64) {v : ℤ} (hinit : c.initializer = some (.int 64 v))
    (imports : ℕ → Option D.Content) :
    (N.initState imports).mem (.global c.id) = some (D.init .i64 (.int 64 v)) := by
  obtain ⟨hmem, -, -, -⟩ := mem_of_getGlobalVariable (hL.named hk)
  have hids := hL.wf.ids
  simp only [Module.globalValues, List.map_append, List.map_map] at hids
  have hnodup : (N.globals.map GlobalVariable.id).Nodup :=
    (List.nodup_append.mp (List.nodup_append.mp (List.nodup_append.mp hids).1).1).2.1
  have hfind : N.global? c.id = some c := Module.find?_of_mem_nodup hnodup hmem
  simp only [Module.initState, hfind, Option.bind_some, hinit, hty]

end Layered

/-- What happens next is an instruction of the source that is no terminator, something in the handler, or nothing in
the program. -/
def AtSource {D : DataOps} (M : Module) (s : State D) : Prop :=
  ∀ fr, s.control = .exec fr → fr.fn = handlerId M ∨
    ∃ I rest, fr.todo = I :: rest ∧ IsOriginal M fr.fn I ∧ I.isTerminator = false

/-- At an instruction of the source the increments of the last terminator are all made. -/
theorem ControlStage.atSource {D : DataSem} {M N : Module} {c : GlobalVariable} {k T : ℕ} {x₀ x : BitVec 64}
    {s : State D.toDataOps} (hst : ControlStage M N c k x₀ T x s.control) (hs : AtSource M s) :
    x = countValue x₀ k T 0 := by
  cases hc : s.control with
  | exec fr =>
    rw [hc] at hst
    rcases hs fr hc with hg | ⟨I, rest, ht, horig, hterm⟩
    · cases hst with
      | handler => rfl
      | ahead hne => exact absurd hg hne
      | adding hne => exact absurd hg hne
      | storing hne => exact absurd hg hne
    · cases hst.nextUp ht with
      | handler => rfl
      | plain => rfl
      | load _ _ hnot => exact absurd horig hnot
      | add _ _ hnot => exact absurd horig hnot
      | store _ _ hnot => exact absurd horig hnot
      | leave _ hI =>
        rw [hterm] at hI
        cases hI
  | _ =>
    rw [hc] at hst
    exact hst

/-- The variable can be stored to, and starts at `v`.  The pass asks for neither: it counts on a constant as well, and
the program is undefined at its first store. -/
structure StartsAt (c : GlobalVariable) (v : ℤ) : Prop where
  initializer : c.initializer = some (.int 64 v)
  notConstant : c.isConstant = false

/-- **After `k` runs of the pass the variable that `bbCounter` finds grows by `k` with every terminator**, whatever
the names found before, as long as the variable is no constant, and the report of that variable hands the same number
to `printf`.  The terminators begun are the blocks entered, less the frames that are open or were abandoned. -/
theorem counter_eq_times {M N : Module} {main : Function} {c : GlobalVariable} {k n : ℕ} {v : ℤ} {D : DataSem}
    {imports : ℕ → Option D.Content} {es : List (Event D.toDataOps)} {s : State D.toDataOps} (hM : M.WellFormed)
    (hmain : M.getFunction "main" = some main) (hinst : Instrumentable M main) (hc : foundCounter M = some c)
    (hv : StartsAt c v) (hk : 0 < k) (hN : runTimes k M = .ok N)
    (hrun : CostedRun N.step (abandoned N (handlerId M)) (N.initState imports) es s n)
    (hleave : ∀ e ∈ es, Undisturbed M c.id e) :
    (∃ d x, s.mem (.global c.id) = some d ∧ D.Holds64 d x ∧
      (AtSource M s →
        x = BitVec.ofInt 64 v + BitVec.ofNat 64 (k * terminatorsBegun (handlerId M) es)) ∧
      ∀ fr b name m p fmt, s.control = .exec fr → fr.fn = handlerId M →
        N.block? fr.fn fr.block = some (reportBlock b name m c p fmt) → fr.todo = [handlerCall m c p fmt, handlerRet m] →
        fr.locals m =
          some (.int 64 (BitVec.ofInt 64 v + BitVec.ofNat 64 (k * terminatorsBegun (handlerId M) es)))) ∧
    blocksEntered N (handlerId M) es = terminatorsBegun (handlerId M) es + opened N (handlerId M) s + n ∧
    (s.control = .done true → opened N (handlerId M) s = 0) := by
  have hL := layered_of_runTimes hM hmain hinst hc hN
  have hs := (setupCond_iff hM hmain).mpr ⟨hinst.defined, hinst.handler, hinst.atexit, hinst.printf⟩
  obtain ⟨c', hc', hty⟩ := (@counterFound_iff M main).mpr hinst.counter
  rw [getGlobalVariable_eq_foundCounter, hc, Option.some.injEq] at hc'
  subst hc'
  have hinv := hL.run_stage hM hs hty (hL.initState_counter hk hty hv.initializer imports) (D.init_i64 v) hrun.run hleave
  obtain ⟨d, x, hmem, hx, hst⟩ := hinv.cell
  refine ⟨⟨d, x, hmem, hx, fun hsource => hst.atSource hsource, fun fr b name m p fmt hc hg hreport htodo => ?_⟩,
    run_balance (distinct_of_wellFormed hL.wf _) (terminatorsLast_of_wellFormed hL.wf) hrun,
    opened_of_done hrun.run⟩
  rw [hc] at hst
  cases hst with
  | handler _ hprint => exact hprint b name m p fmt hreport htodo
  | ahead hne => exact absurd hg hne
  | adding hne => exact absurd hg hne
  | storing hne => exact absurd hg hne

/-! ### A program counted twice -/

/-- `main` is run, registers the handler twice, counts twice and returns, and the handler loads the counter. -/
def twiceCountedActs : List (Act wordSem.toDataOps) :=
  [.runMain [], .tick, .tick, .tick, .tick, .tick, .tick, .tick, .tick, .tick, .runHandler, .tick]

/-- The run of a module. -/
def runOf (N : Module) (as : List (Act wordSem.toDataOps)) :
    Option (List (Event wordSem.toDataOps) × State wordSem.toDataOps) :=
  follow N.step (N.initState fun _ => none) as

/-- The function whose frame runs. -/
def runningFn {D : DataOps} (s : State D) : Option ℕ :=
  match s.control with
  | .exec fr => some fr.fn
  | _ => none

/-- `main` has one block and its terminator has begun, so the variable holds 2 when the handler has loaded it. -/
theorem counter_eq_times_return : ∃ N es s, runTimes 2 returnModule = .ok N ∧
    runOf N twiceCountedActs = some (es, s) ∧ terminatorsBegun 2 es = 1 ∧
      ∃ d, s.mem (.global 1) = some d ∧ wordSem.Holds64 d 2#64 := by
  obtain ⟨N, hN⟩ : ∃ N, (runTimes 2 returnModule).toOption = some N := Option.isSome_iff_exists.mp rfl
  have hbegun : (runTimes 2 returnModule).toOption.bind (fun N => (runOf N twiceCountedActs).map fun r =>
      (terminatorsBegun 2 r.1, r.1.any isWrite)) = some (1, false) := by rfl
  have hcontrol : (runTimes 2 returnModule).toOption.bind (fun N => (runOf N twiceCountedActs).map fun r =>
      runningFn r.2) = some (some 2) := by rfl
  rw [hN, Option.bind_some] at hbegun hcontrol
  obtain ⟨⟨es, s⟩, hr, hvalues⟩ := Option.map_eq_some_iff.mp hbegun
  rw [hr, Option.map_some, Option.some.injEq] at hcontrol
  rw [Prod.mk.injEq] at hvalues
  have hok : runTimes 2 returnModule = .ok N := by
    cases h : runTimes 2 returnModule with
    | ok N' => rw [h] at hN; exact congrArg _ (Option.some.inj hN)
    | error m => rw [h] at hN; cases hN
  obtain ⟨n, hrun⟩ := (Run.of_follow hr).costed (abandoned N (handlerId returnModule))
  obtain ⟨⟨d, x, hmem, hx, hsource, -⟩, -, -⟩ := counter_eq_times (k := 2) (v := 0)
    (Module.Verified.wellFormed (M := returnModule) (by decide)) rfl instrumentable_returnModule
    (c := counter returnModule) (by rw [foundCounter, if_neg (by decide)]) ⟨rfl, rfl⟩ (by decide) hok hrun
    (fun e he => undisturbed_of_noMemory (by decide) (by simpa using List.any_eq_false.mp hvalues.2 e he))
  refine ⟨N, es, s, hok, hr, hvalues.1, d, hmem, ?_⟩
  have hat : AtSource returnModule s := by
    intro fr hfr
    rw [runningFn, hfr] at hcontrol
    exact .inl (Option.some.inj hcontrol)
  have hx2 := hsource hat
  rw [show handlerId returnModule = 2 from rfl, hvalues.1] at hx2
  rwa [hx2] at hx

end SnippetsLlvm.CountBB
