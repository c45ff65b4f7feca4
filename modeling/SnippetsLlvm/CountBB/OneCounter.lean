import SnippetsLlvm.CountBB.Lookup

/-!
# One counter and one handler

`setup` hands the variable it created to the code that prints it, while the counting code looks the variable
up by name; the handler is obtained by name, and the function with its name is skipped.

* `OneCounter` — the counting code uses the variable that was created and the handler prints it, with the format
  and by the function the name `printf` finds; the function registered, by the one the name `atexit` finds, is new and
  consists of the reporting block; every function there was is counted, and nothing else about it changes;
* `oneCounter_iff` — **this holds exactly when the names `bbCounter` and `setupAtExit` were free**.
-/

namespace SnippetsLlvm.CountBB

open SnippetsLlvm.Ir SnippetsLlvm.Library

/-! ### The statement -/

/-- `B'` is the block `B` of `F` with the counting code on the variable `c`; the entry block of `main`
registers the function `h` with the function `a` first. -/
structure CountedBy (main : Function) (c : GlobalVariable) (a h : ℕ) (F : Function)
    (B B' : BasicBlock) : Prop where
  id_eq : B'.id = B.id
  insts_eq : ∃ k n, B'.insts =
    (if F.id = main.id ∧ main.blocks.head?.map BasicBlock.id = some B.id then [registerCall k a h]
      else []) ++ B.insts.dropLast ++ countInsts n c ++ B.insts.getLast?.toList

/-- `M'` is `M` instrumented with one counter `c` and one handler `h`. -/
structure OneCounter (M : Module) (main : Function) (M' : Module) (c : GlobalVariable) (h : ℕ) :
    Prop where
  created : c ∈ M'.globals ∧ c.initializer = some (.int 64 0)
  counterNew : ∀ V ∈ M.globalValues, V.id ≠ c.id
  handler : ∃ H P b n, ∃ G ∈ M'.globals, M'.function? h = some H ∧ M'.getFunction "printf" = some P ∧
    H.blocks = [reportBlock b "entry" n c P.id (elementAt G)] ∧
    G.initializer = some (.dataArray G.valueType (cString formatStr)) ∧ ∀ V ∈ M.globalValues, V.id ≠ G.id
  handlerNew : ∀ V ∈ M.globalValues, V.id ≠ h
  counted : ∃ A, M'.getFunction "atexit" = some A ∧ ∀ F ∈ M.functions, ∃ F', M'.function? F.id = some F' ∧
    List.Forall₂ (CountedBy main c A.id h F) F.blocks F'.blocks
  others : ∀ F' ∈ M'.functions, (∃ F ∈ M.functions, F.id = F'.id) ∨ F'.id = h ∨ F'.blocks = []
  globals : ∀ G ∈ M.globals, G ∈ M'.globals

/-! ### Free names give one counter -/

/-- A block of a function other than `main`, or not the first one of `main`. -/
theorem countedBy_insert {main F : Function} {c : GlobalVariable} {a h : ℕ} {B : BasicBlock}
    (hnot : ¬ (F.id = main.id ∧ main.blocks.head?.map BasicBlock.id = some B.id)) (m : ℕ) :
    CountedBy main c a h F B (B.insertBeforeLast (countInsts m c)) := by
  refine ⟨rfl, 0, m, ?_⟩
  rw [if_neg hnot]
  rfl

/-- The first block of `main`. -/
theorem countedBy_front {main : Function} {c : GlobalVariable} {a h n : ℕ} {E : BasicBlock}
    (hE : E.insts ≠ []) (hhead : main.blocks.head?.map BasicBlock.id = some E.id) (m : ℕ) :
    CountedBy main c a h main E
      ((E.pushFront (registerCall n a h)).insertBeforeLast (countInsts m c)) := by
  refine ⟨rfl, n, m, ?_⟩
  rw [if_pos ⟨rfl, hhead⟩]
  cases hins : E.insts with
  | nil => exact absurd hins hE
  | cons I Is => simp [BasicBlock.insertBeforeLast, BasicBlock.pushFront, hins]

theorem le_withPrintf_nextGlobal (M : Module) (main : Function) :
    M.nextGlobal ≤ (withPrintf M main).nextGlobal := by
  have h₁ : (withCounter M).nextGlobal = M.nextGlobal + 1 := rfl
  have h₂ : (withCounter M).nextGlobal ≤ (withHandler M).nextGlobal := le_withSymbol_nextGlobal _ _ _ _
  have h₃ : (withHandler M).nextGlobal ≤ (withRegister M main).nextGlobal :=
    le_withSymbol_nextGlobal _ _ _ _
  have h₄ : (withRegister M main).nextGlobal ≤ (withPrintf M main).nextGlobal :=
    le_withSymbol_nextGlobal _ _ _ _
  omega

theorem instrumented_functions (M : Module) (main : Function) (c : GlobalVariable) :
    (instrumented M main c).functions = (withReport M main).functions.map (countUnlessHandler c) := by
  rw [instrumented]

namespace Ready

variable {M : Module} {main : Function} (hM : Ready M main)
include hM

/-- **Every function is counted.** -/
theorem counted {F : Function} (hF : F ∈ M.functions) :
    ∃ F', (instrumented M main (counter M)).function? F.id = some F' ∧
      List.Forall₂ (CountedBy main (counter M) (atexitId M) (handlerId M) F) F.blocks F'.blocks := by
  have hwf := hM.wf.functions F hF
  refine ⟨_, by rw [hM.function?_old (hM.wf.function_lt hF), hM.wf.function?_of_mem hF]; rfl, ?_⟩
  dsimp only
  by_cases hid : F.id = main.id
  · obtain rfl : F = main := by
      have h₁ := hM.wf.function?_of_mem hF
      rw [hid, hM.wf.function?_of_mem hM.main_mem, Option.some.injEq] at h₁
      exact h₁.symm
    rw [if_pos rfl]
    cases hB : F.blocks with
    | nil =>
      have hdef := hM.defined
      simp [Function.isDeclaration, hB] at hdef
    | cons E Bs =>
      have hE := (hwf.blocks E (by simp [hB])).insts_ne_nil
      have hids := hwf.blockIds
      rw [hB, List.map_cons, List.nodup_cons] at hids
      rw [registerAtFront, hB]
      refine .cons (countedBy_front hE (by rw [hB]; rfl) _)
        (forall₂_countBlocks _ fun B hBs m _ => countedBy_insert (fun hfirst => hids.1 ?_) m)
      have heq : E.id = B.id := by simpa [hB] using hfirst.2
      exact heq ▸ List.mem_map_of_mem hBs
  · rw [if_neg hid]
    exact forall₂_countBlocks _ fun B _ m _ => countedBy_insert (fun hfirst => hid hfirst.1) m

theorem ne_of_mem {g : ℕ} (hg : M.nextGlobal ≤ g) : ∀ V ∈ M.globalValues, V.id ≠ g := fun V hV =>
  Nat.ne_of_lt (Nat.lt_of_lt_of_le (hM.wf.idBound V hV) hg)

omit hM in
variable (M main) in
theorem handlerFn_blocks : (handlerFn M main).blocks =
    [reportBlock 0 "entry" 0 (counter M) (printfId M main) (format M main)] := rfl

/-- **One counter, one handler.** -/
theorem oneCounter :
    OneCounter M main (instrumented M main (counter M)) (counter M) (handlerId M) := by
  obtain ⟨fmt, -, hglobals⟩ := instrumented_globals M main (counter M)
  obtain ⟨G, hG, hGid, hinit, hformat⟩ := exists_format M main (counter M)
  obtain ⟨P, hP, hPid, -⟩ := getFunction_printf (c := counter M) hM.wf hM.setupCond
  obtain ⟨A, hA, hAid, -⟩ := getFunction_atexit (c := counter M) hM.wf hM.setupCond
  have hid := hM.handlerId_eq
  have hcid : (counter M).id = M.nextGlobal := by rw [hM.counter_eq]
  have hblocks : (handlerFn M main).blocks = [reportBlock 0 "entry" 0 (counter M) P.id (elementAt G)] := by
    rw [handlerFn_blocks, hPid, hformat]
  have hnew : M.nextGlobal ≤ G.id := by
    rw [hGid]
    exact le_withPrintf_nextGlobal M main
  refine
    { created := ⟨by rw [hglobals]; simp, rfl⟩
      counterNew := hM.ne_of_mem (Nat.le_of_eq hcid.symm)
      handler := ⟨handlerFn M main, P, 0, 0, G, hG, hM.function?_handler, hP, hblocks, hinit, hM.ne_of_mem hnew⟩
      handlerNew := hM.ne_of_mem (by omega)
      counted := ⟨A, hA, fun F hF => ?_⟩
      others := fun F' hF' => mem_instrumented_cases hF'
      globals := fun G hG => by rw [hglobals]; exact List.mem_append_left _ hG }
  rw [hAid]
  exact hM.counted hF

end Ready

/-! ### One counter needs free names -/

section Necessary

variable {M M' : Module} {main : Function} {c : GlobalVariable} {h : ℕ} (hM : M.WellFormed)
  (hs : SetupCond M main)
include hM hs

/-- The counting code and the registration at the front of `main` show which variable and which handler the
pass used. -/
theorem OneCounter.unique {c' : GlobalVariable} (hone : OneCounter M main (instrumented M main c') c h) :
    h = handlerId M ∧ c.id = c'.id := by
  have hmem := Module.mem_functions_of_getFunction hs.mainFn
  obtain ⟨A, -, hcounted⟩ := hone.counted
  obtain ⟨F', hF', hblocks⟩ := hcounted main hmem
  rw [function?_instrumented, function?_withReport_main hM hs, Option.map_some, Option.some.injEq] at hF'
  have hname : (registerAtFront (atexitId M) (handlerId M) main).name ≠ atexitCallStr := by
    rw [registerAtFront_name, Module.name_of_getFunction hs.mainFn]
    decide
  rw [countUnlessHandler, if_neg hname] at hF'
  subst hF'
  cases hB : main.blocks with
  | nil =>
    have hdef := ((setupCond_iff hM hs.mainFn).mp hs).1
    simp [Function.isDeclaration, hB] at hdef
  | cons E Bs =>
    have hE := ((hM.functions main hmem).blocks E (by simp [hB])).insts_ne_nil
    rw [hB, registerAtFront, hB] at hblocks
    obtain ⟨hfirst, -⟩ := List.forall₂_cons.mp hblocks
    obtain ⟨k, n, hinsts⟩ := hfirst.insts_eq
    obtain ⟨I, Is, hIs⟩ := List.exists_cons_of_ne_nil hE
    rw [if_pos ⟨rfl, by rw [hB]; rfl⟩] at hinsts
    simp only [BasicBlock.insertBeforeLast, BasicBlock.pushFront, hIs, List.dropLast_cons_cons,
      List.getLast?_cons_cons, List.cons_append, List.nil_append, List.append_assoc,
      List.cons.injEq] at hinsts
    obtain ⟨hcall, hrest⟩ := hinsts
    refine ⟨?_, ?_⟩
    · simp only [registerCall, Instruction.mk.injEq, List.cons.injEq, Value.const.injEq,
        Constant.global.injEq] at hcall
      exact hcall.2.2.2.1.1.1.symm
    · have hcount := List.append_cancel_right (List.append_cancel_left hrest)
      simp only [countInsts, oldCounter, GlobalVariable.ref, List.cons.injEq, Instruction.mk.injEq,
        Value.const.injEq, Constant.global.injEq] at hcount
      exact hcount.1.2.2.2.1.1.1.symm

/-- **One counter and one handler show that both names were free.** -/
theorem OneCounter.free {c' : GlobalVariable}
    (hc' : (withReport M main).getGlobalVariable bbCounterStr = some c')
    (hone : OneCounter M main (instrumented M main c') c h) :
    bbCounterStr ∉ M.names ∧ atexitCallStr ∉ M.names := by
  obtain ⟨hh, hid⟩ := hone.unique hM hs
  constructor
  · intro htaken
    rw [getGlobalVariable_of_taken htaken] at hc'
    have hmem := Module.mem_of_getNamedValue (mem_of_getGlobalVariable hc').2.2.2
    exact hone.counterNew _ hmem hid.symm
  · intro htaken
    obtain ⟨V, hV⟩ := Option.ne_none_iff_exists'.mp
      (fun hnone => Module.getNamedValue_eq_none_iff.mp hnone htaken)
    have hlookup : (withCounter M).getNamedValue atexitCallStr = some V := by
      rw [getNamedValue_withCounter (by decide), hV]
    have hsymbol : V.id = handlerId M := by rw [handlerId, symbolId, hlookup]
    exact hone.handlerNew V (Module.mem_of_getNamedValue hV) (hsymbol.trans hh.symm)

end Necessary

/-- **The pass that counts a run uses one counter and one handler** exactly when the names `bbCounter` and
`setupAtExit` are free; it completes in this way when `printf` and `atexit` are usable besides. -/
theorem oneCounter_iff {M : Module} {main : Function} (hM : M.WellFormed)
    (hmain : M.getFunction "main" = some main) (hdef : main.isDeclaration = false) :
    (∀ M', runOnModule M = .ok M' →
      ((∃ c h, OneCounter M main M' c h) ↔ bbCounterStr ∉ M.names ∧ atexitCallStr ∉ M.names)) ∧
    ((∃ M', runOnModule M = .ok M' ∧ ∃ c h, OneCounter M main M' c h) ↔
      (bbCounterStr ∉ M.names ∧ atexitCallStr ∉ M.names) ∧
        OkSymbol M "printf" printfTy ∧ OkSymbol M "atexit" atexitTy) := by
  have hsound : ∀ M', runOnModule M = .ok M' → (∃ c h, OneCounter M main M' c h) →
      (bbCounterStr ∉ M.names ∧ atexitCallStr ∉ M.names) ∧ SetupCond M main := by
    rintro M' hrun ⟨c, h, hone⟩
    obtain ⟨main', c', hs, hc', -, rfl⟩ := runOnModule_inv_found hM hrun
    obtain rfl : main' = main := Option.some.inj (hs.mainFn.symm.trans hmain)
    exact ⟨hone.free hM hs hc', hs⟩
  have hcomplete : bbCounterStr ∉ M.names ∧ atexitCallStr ∉ M.names →
      OkSymbol M "printf" printfTy ∧ OkSymbol M "atexit" atexitTy →
        ∃ M', runOnModule M = .ok M' ∧ ∃ c h, OneCounter M main M' c h := by
    rintro ⟨hcounter, hhandler⟩ ⟨hprintf, hatexit⟩
    have hready : Ready M main := ⟨hM, hmain, hdef, hcounter, hhandler, hprintf, hatexit⟩
    exact ⟨_, hready.runOnModule, _, _, hready.oneCounter⟩
  refine ⟨fun M' hrun => ⟨fun hone => (hsound M' hrun hone).1, fun hfree => ?_⟩, ?_, fun h => ?_⟩
  · obtain ⟨main', c', hs, -⟩ := runOnModule_inv_found hM hrun
    obtain rfl : main' = main := Option.some.inj (hs.mainFn.symm.trans hmain)
    obtain ⟨-, -, hatexit, hprintf⟩ := (setupCond_iff hM hmain).mp hs
    obtain ⟨M'', hrun', hone⟩ := hcomplete hfree ⟨hprintf, hatexit⟩
    rw [hrun, Except.ok.injEq] at hrun'
    exact hrun' ▸ hone
  · rintro ⟨M', hrun, hone⟩
    obtain ⟨hfree, hs⟩ := hsound M' hrun hone
    obtain ⟨-, -, hatexit, hprintf⟩ := (setupCond_iff hM hmain).mp hs
    exact ⟨hfree, hprintf, hatexit⟩
  · exact hcomplete h.1 h.2

theorem oneCounter_poll : ∃ M', runOnModule pollModule = .ok M' ∧
    ∃ c h, OneCounter pollModule pollMain M' c h :=
  (oneCounter_iff pollModule_wellFormed rfl rfl).2.mpr
    ⟨⟨by decide, by decide⟩, okSymbol_of_free (by decide), okSymbol_of_free (by decide)⟩

/-! ### A module that has the name already -/

/-- `long bbCounter = 7;`. -/
def programCounter : GlobalVariable := ⟨1, "bbCounter", .i64, false, .external, some (.int 64 7)⟩

/-- `long bbCounter = 7; int main() { return 0; }`. -/
def clashModule : Module := ⟨[returnMain], [programCounter], [], [], [], 2, 0⟩

/-- The counting code increments the variable of the program, while the handler prints the one that `setup`
created under another name. -/
theorem oneCounter_clashModule : clashModule.WellFormed ∧
    clashModule.getFunction "main" = some returnMain ∧ returnMain.isDeclaration = false ∧
    (∃ M', runOnModule clashModule = .ok M' ∧ ¬ ∃ c h, OneCounter clashModule returnMain M' c h) := by
  have hM : clashModule.WellFormed := Module.Verified.wellFormed (by decide)
  have hs : SetupCond clashModule returnMain := (setupCond_iff hM rfl).mpr ⟨rfl,
    okSymbol_of_free (by decide), okSymbol_of_free (by decide), okSymbol_of_free (by decide)⟩
  have hc : (withReport clashModule returnMain).getGlobalVariable bbCounterStr = some programCounter :=
    (getGlobalVariable_of_taken (by decide)).trans rfl
  refine ⟨hM, rfl, rfl, _, runOnModule_of_found hM hs hc rfl, ?_⟩
  rintro ⟨c, h, hone⟩
  exact (hone.free hM hs hc).1 (by decide)

end SnippetsLlvm.CountBB
