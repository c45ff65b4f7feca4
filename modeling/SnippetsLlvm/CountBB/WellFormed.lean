import SnippetsLlvm.CountBB.Stages
import SnippetsLlvm.Ir.Verifier

/-!
# When `count-bb` leaves a well-formed module

* `Instrumentable` — `main` is defined; `printf`, `atexit` and `setupAtExit` are free names or functions of
  the types the pass asks for; `bbCounter` is free or finds a 64-bit variable; no counted function has a
  `musttail` call or a `catchswitch`;
* `instrumented_wellFormed_iff` — the loop over the functions keeps the module well-formed exactly when the
  last of these holds;
* `runOnModule_wellFormed_iff` — **the pass completes with a well-formed module exactly when all of them
  do**.
-/

namespace SnippetsLlvm.CountBB

open SnippetsLlvm.Ir SnippetsLlvm.Library

/-! ### Functions the counting code can go into -/

/-- A function that is skipped, or in which the counting code separates no `musttail` call from its `ret` and
comes before no `catchswitch`. -/
def Countable (F : Function) : Prop :=
  F.name ≠ atexitCallStr → ∀ I ∈ F.insts, I.isMustTail = false ∧ I.opcode ≠ .catchSwitch

/-- What the pass needs of a module. -/
structure Instrumentable (M : Module) (main : Function) : Prop where
  defined : main.isDeclaration = false
  handler : OkSymbol M atexitCallStr atexitCallTy
  atexit : OkSymbol M "atexit" atexitTy
  printf : OkSymbol M "printf" printfTy
  counter : CounterFound M
  countable : ∀ F ∈ M.functions, Countable F

theorem countable_registerAtFront {a h : ℕ} {F : Function} :
    Countable (registerAtFront a h F) ↔ Countable F := by
  cases hB : F.blocks with
  | nil => rw [registerAtFront, hB]
  | cons B Bs =>
    have hinsts : (registerAtFront a h F).insts = registerCall F.nextValue a h :: F.insts := by
      simp [registerAtFront, Function.insts, hB, BasicBlock.pushFront]
    rw [Countable, Countable, hinsts, registerAtFront_name]
    refine imp_congr_right fun _ => ?_
    rw [List.forall_mem_cons]
    exact and_iff_right ⟨rfl, by intro hop; cases hop⟩

theorem countable_appendReport {c : GlobalVariable} {p : ℕ} {fmt : Constant} {F : Function} :
    Countable (appendReport c p fmt F) ↔ Countable F := by
  have hinsts : (appendReport c p fmt F).insts =
      F.insts ++ (reportBlock F.nextBlock (F.uniqueBlockName "entry") F.nextValue c p fmt).insts := by
    simp [appendReport, Function.insts]
  rw [Countable, Countable, hinsts, appendReport_name]
  refine imp_congr_right fun _ => ?_
  rw [List.forall_mem_append]
  refine and_iff_left fun I hI => ?_
  simp only [reportBlock, List.mem_cons, List.not_mem_nil, or_false] at hI
  rcases hI with rfl | rfl | rfl <;> exact ⟨rfl, by intro hop; cases hop⟩

theorem countable_withSymbol {M : Module} {name : String} {ty : FunctionType} {attrs : AttributeList} :
    (∀ F ∈ (withSymbol M name ty attrs).functions, Countable F) ↔ ∀ F ∈ M.functions, Countable F := by
  constructor
  · exact fun h F hF => h F (functions_subset_withSymbol hF)
  · intro h F hF
    rcases mem_withSymbol hF with hF | ⟨hB, -, -⟩
    · exact h F hF
    · intro _ I hI
      rw [Function.insts, hB] at hI
      cases hI

theorem countable_modifyFunction {M : Module} {g : ℕ} {f : Function → Function}
    (hf : ∀ F, Countable (f F) ↔ Countable F) :
    (∀ F ∈ (M.modifyFunction g f).functions, Countable F) ↔ ∀ F ∈ M.functions, Countable F := by
  rw [Module.modifyFunction, List.forall_mem_map]
  refine forall₂_congr fun F _ => ?_
  split
  · exact hf F
  · exact Iff.rfl

/-- `setup` changes nothing about which functions can be counted. -/
theorem countable_withReport {M : Module} {main : Function} :
    (∀ F ∈ (withReport M main).functions, Countable F) ↔ ∀ F ∈ M.functions, Countable F := by
  have hfmt : (withFormat M main).functions = (withPrintf M main).functions := by
    rw [withFormat, geti8StrVal_functions]
  have hcounter : (withCounter M).functions = M.functions := rfl
  rw [withReport, countable_modifyFunction fun _ => countable_appendReport, hfmt, withPrintf,
    countable_withSymbol, withRegister, countable_modifyFunction fun _ => countable_registerAtFront,
    withAtexit, countable_withSymbol, withHandler, countable_withSymbol, hcounter]

/-! ### The whole pass -/

section Pass

variable {M : Module} {main : Function} {c : GlobalVariable} (hM : M.WellFormed)
  (hs : SetupCond M main)
  (hc : (withReport M main).getGlobalVariable bbCounterStr = some c) (hty : c.valueType = .i64)
include hM hs hc hty

/-- **The pass completes** when `setup` gets through and the counter is found. -/
theorem runOnModule_of_found : runOnModule M = .ok (instrumented M main c) := by
  have hwf := withReport_wellFormed hM hs
  refine runOnModule_eq hs fun F hF _ B hB => ⟨hc, hty, ?_⟩
  exact ((hwf.functions F hF).blocks B hB).getTerminator_isSome

/-- **The loop over the functions keeps the module well-formed** exactly when each of them can be
counted. -/
theorem instrumented_wellFormed_iff :
    (instrumented M main c).WellFormed ↔ ∀ F ∈ M.functions, Countable F := by
  have hwf := withReport_wellFormed hM hs
  have href : ∃ V ∈ (withReport M main).globalValues, V.ref = c.ref := by
    have hmem := Module.mem_of_getNamedValue (mem_of_getGlobalVariable hc).2.2.2
    exact ⟨.variable c, hmem, rfl⟩
  rw [← @countable_withReport M main]
  refine (mapFunctions_wellFormed_iff (keepsHeader_countUnlessHandler c) hwf).trans
    (forall₂_congr fun F hF => ?_)
  rw [countUnlessHandler, Countable]
  split
  · rename_i hname
    exact iff_of_true (hwf.functions F hF) fun hne => absurd hname hne
  · rename_i hname
    rw [countFunction_wellFormed_iff (hwf.functions F hF) href hty]
    exact ⟨fun h _ => h, fun h => h hname⟩

end Pass

section Statement

variable {M : Module} {main : Function}

/-- A block the loop visits: the first one of `main`. -/
theorem exists_visited (hM : M.WellFormed) (hs : SetupCond M main) :
    ∃ F ∈ (withReport M main).functions, F.name ≠ atexitCallStr ∧ ∃ B, B ∈ F.blocks := by
  have hdef := ((setupCond_iff hM hs.mainFn).mp hs).1
  refine ⟨_, (Module.mem_of_function? (function?_withReport_main hM hs)).1, ?_, ?_⟩
  · rw [registerAtFront_name, Module.name_of_getFunction hs.mainFn]
    decide
  · cases hB : main.blocks with
    | nil => simp [Function.isDeclaration, hB] at hdef
    | cons E Bs =>
      rw [registerAtFront, hB]
      exact ⟨_, List.mem_cons_self⟩

/-- **The pass inverted**, on a well-formed module: `setup` got through and the counter was found. -/
theorem runOnModule_inv_found (hM : M.WellFormed) {M' : Module} (h : runOnModule M = .ok M') :
    ∃ main c, SetupCond M main ∧ (withReport M main).getGlobalVariable bbCounterStr = some c ∧
      c.valueType = .i64 ∧ M' = instrumented M main c := by
  obtain ⟨main, hs, hvisit⟩ := runOnModule_inv h
  obtain ⟨F, hF, hname, B, hB⟩ := exists_visited hM hs
  obtain ⟨c, hcond, hM'⟩ := hvisit F hF hname B hB
  exact ⟨main, c, hs, hcond.1, hcond.2.1, hM'⟩

/-- **`count-bb` completes with a well-formed module exactly when the module can be instrumented.** -/
theorem runOnModule_wellFormed_iff (hM : M.WellFormed) (hmain : M.getFunction "main" = some main) :
    (∃ M', runOnModule M = .ok M' ∧ M'.WellFormed) ↔ Instrumentable M main := by
  constructor
  · rintro ⟨M', hrun, hwf⟩
    obtain ⟨main', c, hs, hc, hty, rfl⟩ := runOnModule_inv_found hM hrun
    obtain rfl : main' = main := Option.some.inj (hs.mainFn.symm.trans hmain)
    obtain ⟨hdef, hhandler, hatexit, hprintf⟩ := (setupCond_iff hM hmain).mp hs
    exact ⟨hdef, hhandler, hatexit, hprintf, counterFound_iff.mp ⟨c, hc, hty⟩,
      (instrumented_wellFormed_iff hM hs hc hty).mp hwf⟩
  · intro h
    have hs := (setupCond_iff hM hmain).mpr ⟨h.defined, h.handler, h.atexit, h.printf⟩
    obtain ⟨c, hc, hty⟩ := counterFound_iff.mpr h.counter
    exact ⟨_, runOnModule_of_found hM hs hc hty,
      (instrumented_wellFormed_iff hM hs hc hty).mpr h.countable⟩

end Statement

/-! ### A module that can be instrumented and one that cannot -/

/-- `int main() { return 0; }`. -/
def returnMain : Function :=
  ⟨0, "main", ⟨.i32, [], false⟩, .external, ⟨[], []⟩, false, 0, none, none, none, none,
    [⟨0, "entry", [⟨0, .ret, .void, [.const (.int 32 0)], false⟩]⟩], 1, 1⟩

/-- The module of `returnMain`. -/
def returnModule : Module := ⟨[returnMain], [], [], [], [], 1, 0⟩

theorem okSymbol_of_free {M : Module} {name : String} {ty : FunctionType} (h : name ∉ M.names) :
    OkSymbol M name ty :=
  fun _ hV => absurd (Module.mem_names_of_getNamedValue hV) h

theorem counterFound_of_free {M : Module} (h : bbCounterStr ∉ M.names) : CounterFound M :=
  fun _ hV => absurd (Module.mem_names_of_getNamedValue hV) h

theorem runOnModule_wellFormed_poll : ∃ M', runOnModule pollModule = .ok M' ∧ M'.WellFormed :=
  (runOnModule_wellFormed_iff pollModule_wellFormed rfl).mpr
    { defined := rfl
      handler := okSymbol_of_free (by decide)
      atexit := okSymbol_of_free (by decide)
      printf := okSymbol_of_free (by decide)
      counter := counterFound_of_free (by decide)
      countable := fun F hF _ => by
        simp only [pollModule, List.mem_cons, List.not_mem_nil, or_false] at hF
        rcases hF with rfl | rfl | rfl <;> decide }

/-- `int next(void) { return last(); }` with the call in tail position by `musttail`. -/
def tailCaller : Function :=
  ⟨1, "next", ⟨.i32, [], false⟩, .external, ⟨[], []⟩, false, 0, none, none, none, none,
    [⟨0, "entry", [⟨0, .call ⟨.i32, [], false⟩ true, .i32,
        [.const (.global 2 .function (FunctionType.ptrTy ⟨.i32, [], false⟩))], false⟩,
      ⟨1, .ret, .void, [.inst 0 (.call ⟨.i32, [], false⟩ true) .i32], false⟩]⟩], 2, 1⟩

/-- `int last(void)`, defined elsewhere. -/
def tailCallee : Function :=
  ⟨2, "last", ⟨.i32, [], false⟩, .external, ⟨[], []⟩, false, 0, none, none, none, none, [], 0, 0⟩

/-- The module of `tailCaller`. -/
def tailModule : Module := ⟨[returnMain, tailCaller, tailCallee], [], [], [], [], 3, 0⟩

/-- The counting code separates the `musttail` call from its `ret`: the pass returns, and what it leaves is
not well-formed. -/
theorem runOnModule_tailModule : tailModule.WellFormed ∧
    tailModule.getFunction "main" = some returnMain ∧
    (∃ M', runOnModule tailModule = .ok M' ∧ ¬ M'.WellFormed) ∧
    ¬ ∃ M', runOnModule tailModule = .ok M' ∧ M'.WellFormed := by
  have hM : tailModule.WellFormed := Module.Verified.wellFormed (by decide)
  have hs : SetupCond tailModule returnMain := (setupCond_iff hM rfl).mpr ⟨rfl,
    okSymbol_of_free (by decide), okSymbol_of_free (by decide), okSymbol_of_free (by decide)⟩
  have hc : (withReport tailModule returnMain).getGlobalVariable bbCounterStr =
    some (counter tailModule) := getGlobalVariable_of_free (by decide)
  have hrun := runOnModule_of_found hM hs hc rfl
  have hbad : ¬ (instrumented tailModule returnMain (counter tailModule)).WellFormed := by
    rw [instrumented_wellFormed_iff hM hs hc rfl]
    intro h
    have hcall := (h tailCaller (by simp [tailModule]) (by decide) _ List.mem_cons_self).1
    cases hcall
  refine ⟨hM, rfl, ⟨_, hrun, hbad⟩, ?_⟩
  rintro ⟨M', hrun', hwf⟩
  rw [hrun, Except.ok.injEq] at hrun'
  exact hbad (hrun' ▸ hwf)

end SnippetsLlvm.CountBB
