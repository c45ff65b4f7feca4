import SnippetsLlvm.CountBB.Layout
import SnippetsLlvm.Ir.Erasure
import SnippetsLlvm.Ir.Growth

/-!
# What `count-bb` adds, left out

The pass adds instructions with new identities to the old functions, and functions and variables with new
identities to the module.  Leaving these out gives the old module back.

* `added` — what is left out: the instructions and the globals with identities drawn by the pass;
* `Counted.filter` — a block without the added instructions is the old block;
* `erases_instrumented` — **the instrumented module is read as the old one**.
-/

namespace SnippetsLlvm.CountBB

open SnippetsLlvm.Ir SnippetsLlvm.Library

/-- The instructions and globals with identities drawn by the pass are left out. -/
def added (M : Module) : Erasure where
  fn g := g
  hidesFn g := decide (M.nextGlobal ≤ g)
  keeps g i := (M.function? g).any fun F => decide (i < F.nextValue)
  dropsArgs _ := false
  hides g := decide (M.nextGlobal ≤ g)

/-- `main` with its registration and its counting code. -/
def countedMain (M : Module) (main : Function) : Function :=
  countFunction (counter M) (registerAtFront (atexitId M) (handlerId M) main)

theorem secret_iff {M : Module} {g : ℕ} : (added M).Secret g ↔ M.nextGlobal ≤ g := by
  simp [Erasure.Secret, added]

theorem hidesFn_iff {M : Module} {g : ℕ} : (added M).hidesFn g = false ↔ g < M.nextGlobal := by
  simp [added]

theorem keeps_of_function? {M : Module} {g : ℕ} {F : Function} (hF : M.function? g = some F) (i : ℕ) :
    (added M).keeps g i = decide (i < F.nextValue) := by
  simp [added, hF]

/-- Instructions put before the last one, none of which is kept, leave no trace. -/
theorem filter_insertBeforeLast {B : BasicBlock} {is : List Instruction} {p : Instruction → Bool}
    (his : ∀ I ∈ is, p I = false) : (B.insertBeforeLast is).insts.filter p = B.insts.filter p := by
  have hnil : is.filter p = [] := List.filter_eq_nil_iff.mpr fun I hI => by simp [his I hI]
  have hsplit : B.insts.dropLast ++ B.insts.getLast?.toList = B.insts := by
    cases hlast : B.insts.getLast? with
    | none =>
      rw [List.getLast?_eq_none_iff.mp hlast]
      rfl
    | some I => exact List.dropLast_append_getLast? I hlast
  show (B.insts.dropLast ++ is ++ B.insts.getLast?.toList).filter p = _
  rw [List.filter_append, List.filter_append, hnil, List.append_nil, ← List.filter_append, hsplit]

/-- The blocks of a function without the counting code. -/
theorem map_block_countBlocks {E : Erasure} {g : ℕ} {c : GlobalVariable} {n : ℕ} (Bs : List BasicBlock)
    (hn : ∀ m, n ≤ m → E.keeps g m = false) :
    (countBlocks c n Bs).map (E.block g) = Bs.map (E.block g) := by
  induction Bs generalizing n with
  | nil => rfl
  | cons B Bs ih =>
    have hcount : ∀ I ∈ countInsts n c, E.keeps g I.id = false := by
      intro I hI
      simp only [countInsts, List.mem_cons, List.not_mem_nil, or_false] at hI
      rcases hI with rfl | rfl | rfl
      · exact hn n (Nat.le_refl n)
      · exact hn (n + 1) (Nat.le_succ n)
      · exact hn (n + 2) (by omega)
    have hblock : E.block g (B.insertBeforeLast (countInsts n c)) = E.block g B := by
      rw [Erasure.block, Erasure.insts, filter_insertBeforeLast hcount]
      rfl
    rw [countBlocks, List.map_cons, List.map_cons, hblock, ih fun m hm => hn m (by omega)]

/-- A function without its registration. -/
theorem map_block_registerAtFront {E : Erasure} {g a h : ℕ} {F : Function}
    (hF : E.keeps g F.nextValue = false) :
    (registerAtFront a h F).blocks.map (E.block g) = F.blocks.map (E.block g) := by
  rw [registerAtFront]
  cases hB : F.blocks with
  | nil => rw [hB]
  | cons B Bs =>
    have hblock : E.block g (B.pushFront (registerCall F.nextValue a h)) = E.block g B := by
      rw [Erasure.block, Erasure.insts]
      show ({ B with insts := List.filter _ (registerCall F.nextValue a h :: B.insts) } : BasicBlock) = _
      rw [List.filter_cons_of_neg (by simpa [registerCall] using hF)]
      rfl
    rw [List.map_cons, List.map_cons, hblock]

namespace Ready

variable {M : Module} {main : Function} (hM : Ready M main)
include hM

/-! ### The functions -/

/-- A function without what was added is the old one. -/
theorem sameCode {g : ℕ} {F : Function} (hF : M.function? g = some F) :
    (added M).SameCode (countFunction (counter M)
      (if F.id = main.id then registerAtFront (atexitId M) (handlerId M) F else F)) F := by
  obtain ⟨hmem, hid⟩ := Module.mem_of_function? hF
  have hwf := hM.wf.functions F hmem
  have hkeeps : ∀ m, F.nextValue ≤ m → (added M).keeps g m = false := by
    intro m hm
    rw [keeps_of_function? hF]
    simpa using hm
  have hold : F.blocks.map ((added M).block g) = F.blocks := by
    refine (List.map_congr_left fun B hB => ?_).trans (List.map_id _)
    have hinsts : (added M).insts g B.insts = B.insts := by
      refine List.filter_eq_self.mpr fun I hI => ?_
      rw [keeps_of_function? hF]
      simpa using hwf.valueBound I (List.mem_flatMap.mpr ⟨B, hB, hI⟩)
    rw [Erasure.block, hinsts]
    rfl
  by_cases hmain : F.id = main.id
  · rw [if_pos hmain]
    refine ⟨(registerAtFront_id _ _ F).symm, ?_, ?_⟩
    · show F.blocks = (countBlocks _ _ _).map ((added M).block (registerAtFront _ _ F).id)
      rw [registerAtFront_id, hid, map_block_countBlocks _ fun m hm =>
        hkeeps m (Nat.le_trans (nextValue_registerAtFront _ _ F) hm),
        map_block_registerAtFront (hkeeps _ (Nat.le_refl _)), hold]
    · show (registerAtFront _ _ F).name = "atexit" ↔ _
      rw [registerAtFront_name]
  · rw [if_neg hmain]
    refine ⟨rfl, ?_, Iff.rfl⟩
    show F.blocks = (countBlocks _ _ _).map ((added M).block F.id)
    rw [hid, map_block_countBlocks _ hkeeps, hold]

/-! ### The blocks -/

/-- The instructions of the old block are kept, those added are not. -/
theorem keeps_insts {g b : ℕ} (K : Counted M g b) :
    (∀ I ∈ K.body ++ [K.term], (added M).keeps g I.id = true) ∧
      (∀ I ∈ frontInsts M main g b, (added M).keeps g I.id = false) ∧
      ∀ I ∈ countInsts K.first (counter M), (added M).keeps g I.id = false := by
  obtain ⟨hmem, hid⟩ := Module.mem_of_function? K.fn_eq
  have hwf := hM.wf.functions K.fn hmem
  refine ⟨fun I hI => ?_, fun I hI => ?_, fun I hI => ?_⟩
  · rw [keeps_of_function? K.fn_eq]
    rw [← K.insts_eq] at hI
    simpa using hwf.valueBound I
      (List.mem_flatMap.mpr ⟨K.block, List.mem_of_find?_eq_some K.block_eq, hI⟩)
  · rw [frontInsts] at hI
    split at hI
    · rename_i hg
      have hfn : M.function? g = some main := by
        rw [hg.1]
        exact hM.wf.function?_of_mem hM.main_mem
      rw [List.mem_singleton.mp hI, keeps_of_function? hfn]
      simp [registerCall]
    · cases hI
  · have hle := K.le_first
    rw [keeps_of_function? K.fn_eq]
    simp only [countInsts, List.mem_cons, List.not_mem_nil, or_false] at hI
    simp only [decide_eq_false_iff_not, Nat.not_lt]
    rcases hI with rfl | rfl | rfl
    · exact hle
    · exact Nat.le_succ_of_le hle
    · exact Nat.le_succ_of_le (Nat.le_succ_of_le hle)

/-- A kept instruction of a block is one of the old block. -/
theorem mem_of_keeps {g b : ℕ} (K : Counted M g b) {I : Instruction} (hI : I ∈ K.insts main)
    (hkeep : (added M).keeps g I.id = true) : I ∈ K.body ++ [K.term] := by
  obtain ⟨-, hfront, hcount⟩ := hM.keeps_insts K
  simp only [Counted.insts, List.mem_append] at hI
  rcases hI with ((hI | hI) | hI) | hI
  · rw [hfront I hI] at hkeep
    cases hkeep
  · exact List.mem_append_left _ hI
  · rw [hcount I hI] at hkeep
    cases hkeep
  · exact List.mem_append_right _ hI

/-- An instruction of the old module does not refer to what was added. -/
theorem quiet_of_original {g : ℕ} {I : Instruction} (hI : IsOriginal M g I) :
    Quiet (added M).Secret I := by
  obtain ⟨F, hF, -, hI⟩ := hI
  intro v hv g hg
  by_contra hm
  obtain ⟨V, hV, hid⟩ := ((hM.wf.functions F hF).globalRefs I hI v hv).2 g (by simpa using hm)
  have hlt := hM.wf.idBound V hV
  have hle := secret_iff.mp hg
  omega

/-- In a block the phi nodes come first. -/
theorem phisFirst_counted {g b : ℕ} (K : Counted M g b) : PhisFirst (K.insts main) := by
  obtain ⟨hmem, hid⟩ := Module.mem_of_function? K.fn_eq
  have hwf := hM.wf.functions K.fn hmem
  have hB := List.mem_of_find?_eq_some K.block_eq
  have htail : ∀ I ∈ countInsts K.first (counter M) ++ [K.term], I.isPhi = false := by
    intro I hI
    simp only [countInsts, List.cons_append, List.nil_append, List.mem_cons, List.not_mem_nil,
      or_false] at hI
    rcases hI with rfl | rfl | rfl | rfl
    · rfl
    · rfl
    · rfl
    · by_contra hphi
      have h := isTerminator_of_isPhi (by simpa using hphi)
      rw [K.isTerminator] at h
      cases h
  have hphis : PhisFirst (frontInsts M main g b ++ K.body) := by
    rw [frontInsts]
    split
    · rename_i hfront
      have hfn : M.function? g = some main := by
        rw [hfront.1]
        exact hM.wf.function?_of_mem hM.main_mem
      have hfn := Option.some.inj (K.fn_eq.symm.trans hfn)
      cases hhead : main.blocks.head? with
      | none => rw [hhead] at hfront; cases hfront.2
      | some E =>
        have hEid : E.id = b := by
          rw [hhead] at hfront
          exact Option.some.inj hfront.2
        have hEB : K.block = E := by
          have hEmem : E ∈ K.fn.blocks := hfn ▸ List.mem_of_mem_head? hhead
          have h := Function.block?_of_mem hwf.blockIds hEmem
          rw [hEid] at h
          exact Option.some.inj (K.block_eq.symm.trans h)
        have hplain := hwf.entryPlain E (hfn ▸ hhead)
        intro I hI
        have hI := (List.dropWhile_sublist _).subset hI
        rcases List.mem_cons.mp hI with rfl | hI
        · rfl
        · refine (hplain I ?_).1
          rw [← hEB, K.insts_eq]
          exact List.mem_append_left _ hI
    · have hall := phisFirst_of_wellFormed (hwf.blocks K.block hB)
      rw [K.insts_eq] at hall
      intro I hI
      refine hall I ?_
      rw [List.nil_append] at hI
      rw [List.dropWhile_append]
      split
      · rename_i hnil
        rw [List.isEmpty_iff.mp hnil] at hI
        cases hI
      · exact List.mem_append_left _ hI
  rw [Counted.insts, List.append_assoc]
  intro I hI
  rw [List.dropWhile_append] at hI
  split at hI
  · exact htail I ((List.dropWhile_sublist _).subset hI)
  · rcases List.mem_append.mp hI with hI | hI
    · exact hphis I hI
    · exact htail I hI

/-- The instructions kept can be read. -/
theorem readable_counted {g b : ℕ} (K : Counted M g b) : (added M).Readable g (K.insts main) where
  phisFirst := hM.phisFirst_counted K
  phisKept I hI hphi := by
    obtain ⟨hkeep, -, -⟩ := hM.keeps_insts K
    simp only [Counted.insts, List.mem_append] at hI
    rcases hI with ((hI | hI) | hI) | hI
    · rw [eq_of_mem_frontInsts hI] at hphi
      cases hphi
    · exact hkeep I (List.mem_append_left _ hI)
    · simp only [countInsts, List.mem_cons, List.not_mem_nil, or_false] at hI
      rcases hI with rfl | rfl | rfl <;> cases hphi
    · exact hkeep I (List.mem_append_right _ hI)
  quiet I hI hkeep := hM.quiet_of_original (K.isOriginal (hM.mem_of_keeps K hI hkeep))
  reads I hI hkeep v hv := by
    cases v with
    | inst d op ty =>
      obtain ⟨F, hF, hid, hmem⟩ := K.isOriginal (hM.mem_of_keeps K hI hkeep)
      obtain ⟨J, hJ, rfl, -⟩ := (hM.wf.functions F hF).localRefs I hmem _ hv
      have hlt := (hM.wf.functions F hF).valueBound J hJ
      have hfn := hM.wf.function?_of_mem hF
      rw [hid] at hfn
      show (added M).keeps g J.id = true
      rw [keeps_of_function? hfn]
      simpa using hlt
    | arg => rfl
    | _ => trivial

/-! ### The module -/

omit hM in
variable (M main) in
theorem instrumented_aliases (c : GlobalVariable) :
    (instrumented M main c).aliases = M.aliases ∧ (instrumented M main c).ifuncs = M.ifuncs := by
  have hcounter : (withCounter M).aliases = M.aliases ∧ (withCounter M).ifuncs = M.ifuncs := ⟨rfl, rfl⟩
  constructor
  · rw [instrumented_aliases_eq, withReport, Module.modifyFunction_aliases, withFormat, geti8StrVal_aliases, withPrintf,
      withSymbol_aliases, withRegister, Module.modifyFunction_aliases, withAtexit, withSymbol_aliases,
      withHandler, withSymbol_aliases, hcounter.1]
  · rw [instrumented_ifuncs_eq, withReport, Module.modifyFunction_ifuncs, withFormat, geti8StrVal_ifuncs, withPrintf,
      withSymbol_ifuncs, withRegister, Module.modifyFunction_ifuncs, withAtexit, withSymbol_ifuncs,
      withHandler, withSymbol_ifuncs, hcounter.2]

/-- In the result the name `main` finds the counted `main`. -/
theorem getFunction_main :
    (instrumented M main (counter M)).getFunction "main" = some (countedMain M main) := by
  have hold := Module.getFunction_eq_some.mp hM.mainFn
  have hname := Module.name_of_getFunction hM.mainFn
  rw [Module.getFunction_eq_some, getNamedValue_instrumented,
    getNamedValue_withReport (by decide) (by decide) (by decide),
    hM.withHandler_getNamedValue (by decide) (by decide), hold]
  simp only [Option.map_some, GlobalValue.edit, if_true, registerAtFront_id, if_neg hM.main_ne_handler]
  rw [countUnlessHandler, registerAtFront_name, hname, if_neg (by decide)]
  rfl

/-- **The instrumented module is read as the old one.** -/
theorem erases_instrumented :
    Erases (added M) (instrumented M main (counter M)) M (countedMain M main) main where
  aliases := (instrumented_aliases M main (counter M)).1
  ifuncs := (instrumented_aliases M main (counter M)).2
  mainFn' := hM.getFunction_main
  mainFn := hM.mainFn
  mainShown := by
    have hid : (countedMain M main).id = main.id := registerAtFront_id _ _ main
    rw [hid, hidesFn_iff]
    exact hM.main_lt
  mainRead := registerAtFront_id _ _ main
  known g hg := ⟨hg, rfl, rfl⟩
  code g hg := by
    rw [hM.function?_old (hidesFn_iff.mp hg)]
    show Option.Rel _ _ (M.function? g)
    cases hF : M.function? g with
    | none => exact .none
    | some F => exact .some (hM.sameCode hF)
  blocks g b B hg hB := by
    have hne : g ≠ handlerId M := by
      have h₁ := hidesFn_iff.mp hg
      have h₂ := hM.handlerId_eq
      omega
    obtain ⟨K, hK⟩ := hM.block?_inv hne hB
    rw [hK]
    exact hM.readable_counted K
  aliasees A hA g hg := by
    rw [(instrumented_aliases M main (counter M)).1] at hA
    by_contra hm
    obtain ⟨V, hV, hid⟩ := hM.wf.aliasees A hA g (by simpa using hm)
    have hlt := hM.wf.idBound V hV
    have hle := secret_iff.mp hg
    omega

end Ready

end SnippetsLlvm.CountBB
