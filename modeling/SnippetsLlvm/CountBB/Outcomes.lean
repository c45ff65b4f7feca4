import SnippetsLlvm.CountBB.WellFormed

/-!
# Every outcome of `count-bb`

`setup` ends the program when there is no `main`, and the rest of the pass can stop at a cast, at the front of
`main`, at the assertion on the counter and at the operand types of the addition.  Which of them happens is
decided by what the module has under the names the pass uses, in the order in which it asks for them.

* `Outcome` — the outcomes, each with its condition on the source module;
* `runOnModule_eq_iff` — **on a well-formed module the pass has exactly these outcomes**, and no other failure.
-/

namespace SnippetsLlvm.CountBB

open SnippetsLlvm.Ir SnippetsLlvm.Library

/-! ### The outcomes -/

/-- The variable the counting code uses: the one created, if its name was free, otherwise what the name finds, a
constant as well. -/
def foundCounter (M : Module) : Option GlobalVariable :=
  if bbCounterStr ∈ M.names then M.getGlobalVariable bbCounterStr else some (counter M)

/-- The module has what `setup` asks for, apart from a body for `main`. -/
structure Usable (M : Module) (main : Function) : Prop where
  mainFn : M.getFunction "main" = some main
  handler : OkSymbol M atexitCallStr atexitCallTy
  atexit : OkSymbol M "atexit" atexitTy

/-- Besides, `main` has a body and `printf` can be called. -/
structure Complete (M : Module) (main : Function) : Prop extends Usable M main where
  defined : main.isDeclaration = false
  printf : OkSymbol M "printf" printfTy

/-- **The outcomes of the pass**, in the order of its checks. -/
inductive Outcome (M : Module) : Except Failure Module → Prop
  | noMain : M.getFunction "main" = none → Outcome M (.error (.exit 1 "cannot find main\n"))
  | badHandler {main} : M.getFunction "main" = some main → ¬ OkSymbol M atexitCallStr atexitCallTy →
      Outcome M (.error (.castFailed "Function"))
  | badAtexit {main} : M.getFunction "main" = some main → OkSymbol M atexitCallStr atexitCallTy →
      ¬ OkSymbol M "atexit" atexitTy → Outcome M (.error (.castFailed "Function"))
  | declaredMain {main} : Usable M main → main.isDeclaration = true → Outcome M (.error .emptyList)
  | badPrintf {main} : Usable M main → main.isDeclaration = false → ¬ OkSymbol M "printf" printfTy →
      Outcome M (.error (.castFailed "Function"))
  | noCounter {main} : Complete M main → foundCounter M = none →
      Outcome M (.error (.assertFailed "Error: unable to get BasicBlock counter"))
  | badCounter {main c} : Complete M main → foundCounter M = some c → c.valueType ≠ .i64 →
      Outcome M (.error (.assertFailed "Cannot create binary operator with two operands of differing type!"))
  | counted {main c} : Complete M main → foundCounter M = some c → c.valueType = .i64 →
      Outcome M (.ok (instrumented M main c))

/-! ### How `setup` ends -/

theorem castFunction_error {M : Module} {name : String} {ty : FunctionType} {attrs : AttributeList}
    (h : ¬ OkSymbol M name ty) :
    Module.castFunction (M.getOrInsertFunction name ty attrs).2 = .error (.castFailed "Function") := by
  have hcast : ∀ c, (∃ g, Module.castFunction c = .ok g) ∨
      Module.castFunction c = .error (.castFailed "Function") := by
    intro c
    unfold Module.castFunction
    split
    · exact .inl ⟨_, rfl⟩
    · exact .inr rfl
  rcases hcast (M.getOrInsertFunction name ty attrs).2 with ⟨g, hg⟩ | herror
  · exact absurd (okSymbol_of_cast hg) h
  · exact herror

section Setup

variable {M : Module} {main : Function} (hmain : M.getFunction "main" = some main)

theorem setup_noMain (h : M.getFunction "main" = none) : setup M = .error (.exit 1 "cannot find main\n") := by
  rw [setup, h]
  rfl

include hmain

theorem setup_badHandler (h : ¬ OkSymbol (withCounter M) atexitCallStr atexitCallTy) :
    setup M = .error (.castFailed "Function") := by
  rw [setup, hmain]
  exact bind_eq_error.mpr (.inl (castFunction_error h))

theorem setup_badAtexit (hhandler : OkSymbol (withCounter M) atexitCallStr atexitCallTy)
    (h : ¬ OkSymbol (withHandler M) "atexit" atexitTy) : setup M = .error (.castFailed "Function") := by
  simp only [setup, hmain, getOrInsertFunction_fst]
  refine bind_eq_error.mpr (.inr ⟨_, castFunction_getOrInsert hhandler, ?_⟩)
  exact bind_eq_error.mpr (.inl (castFunction_error h))

theorem setup_front (hhandler : OkSymbol (withCounter M) atexitCallStr atexitCallTy)
    (hatexit : OkSymbol (withHandler M) "atexit" atexitTy) {e : Failure}
    (h : checkFront (withAtexit M) main.id = .error e) : setup M = .error e := by
  simp only [setup, hmain, getOrInsertFunction_fst]
  refine bind_eq_error.mpr (.inr ⟨_, castFunction_getOrInsert hhandler, ?_⟩)
  refine bind_eq_error.mpr (.inr ⟨_, castFunction_getOrInsert hatexit, ?_⟩)
  exact bind_eq_error.mpr (.inl h)

theorem setup_badPrintf (hhandler : OkSymbol (withCounter M) atexitCallStr atexitCallTy)
    (hatexit : OkSymbol (withHandler M) "atexit" atexitTy) (hfront : checkFront (withAtexit M) main.id = .ok ())
    (h : ¬ OkSymbol (withRegister M main) "printf" printfTy) : setup M = .error (.castFailed "Function") := by
  simp only [setup, hmain, getOrInsertFunction_fst]
  refine bind_eq_error.mpr (.inr ⟨_, castFunction_getOrInsert hhandler, ?_⟩)
  refine bind_eq_error.mpr (.inr ⟨_, castFunction_getOrInsert hatexit, ?_⟩)
  refine bind_eq_error.mpr (.inr ⟨(), hfront, ?_⟩)
  exact bind_eq_error.mpr (.inl (castFunction_error h))

end Setup

/-! ### How the loop ends -/

/-- The variable that is looked up for each block. -/
theorem getGlobalVariable_eq_foundCounter (M : Module) (main : Function) :
    (withReport M main).getGlobalVariable bbCounterStr = foundCounter M := by
  rw [foundCounter]
  split
  · rename_i htaken
    exact getGlobalVariable_of_taken htaken
  · rename_i hfree
    exact getGlobalVariable_of_free hfree

section Loop

variable {M : Module} {e : Failure}

theorem runOnFunction_error {F : Function} (hname : F.name ≠ atexitCallStr) (hblocks : F.blocks ≠ [])
    (h : ∀ B ∈ F.blocks, ∀ n, runOnBasicBlock M n B = .error e) : runOnFunction M F = .error e := by
  rw [runOnFunction, if_neg hname]
  refine bind_eq_error.mpr (.inl ?_)
  cases hB : F.blocks with
  | nil => exact absurd hB hblocks
  | cons B Bs =>
    rw [hB] at h
    exact bind_eq_error.mpr (.inl (h B List.mem_cons_self F.nextValue))

/-- A function that is skipped, or has no block, is no obstacle. -/
theorem runOnFunction_idle {F : Function} (h : F.name ≠ atexitCallStr → F.blocks = []) :
    ∃ F', runOnFunction M F = .ok F' := by
  rw [runOnFunction]
  by_cases hname : F.name = atexitCallStr
  · exact ⟨F, if_pos hname⟩
  · rw [if_neg hname, h hname]
    exact ⟨_, rfl⟩

/-- **The loop fails at the first block it visits**, if every block fails alike. -/
theorem runOnFunctions_error {Fs : List Function}
    (h : ∀ F ∈ Fs, F.name ≠ atexitCallStr → ∀ B ∈ F.blocks, ∀ n, runOnBasicBlock M n B = .error e)
    (hvisit : ∃ F ∈ Fs, F.name ≠ atexitCallStr ∧ ∃ B, B ∈ F.blocks) : runOnFunctions M Fs = .error e := by
  induction Fs with
  | nil =>
    obtain ⟨F, hF, -⟩ := hvisit
    cases hF
  | cons F Fs ih =>
    by_cases hF : F.name ≠ atexitCallStr ∧ F.blocks ≠ []
    · exact bind_eq_error.mpr (.inl (runOnFunction_error hF.1 hF.2 (h F List.mem_cons_self hF.1)))
    · obtain ⟨F', hF'⟩ := @runOnFunction_idle M F fun hname => by_contra fun hne => hF ⟨hname, hne⟩
      refine bind_eq_error.mpr (.inr ⟨F', hF', bind_eq_error.mpr (.inl (ih ?_ ?_))⟩)
      · intro G hG
        exact h G (List.mem_cons_of_mem F hG)
      · obtain ⟨G, hG, hname, B, hB⟩ := hvisit
        rcases List.mem_cons.mp hG with rfl | hG
        · exact absurd ⟨hname, List.ne_nil_of_mem hB⟩ hF
        · exact ⟨G, hG, hname, B, hB⟩

end Loop

/-! ### The outcome of the pass -/

section Pass

variable {M : Module} {main : Function} (hM : M.WellFormed)

theorem Complete.setupCond (hM : M.WellFormed) (h : Complete M main) : SetupCond M main :=
  (setupCond_iff hM h.mainFn).mpr ⟨h.defined, h.handler, h.atexit, h.printf⟩

/-- A failure of `setup` is one of the pass. -/
theorem runOnModule_of_setup {e : Failure} (h : setup M = .error e) : runOnModule M = .error e :=
  bind_eq_error.mpr (.inl h)

include hM

/-- The front of a `main` without a body. -/
theorem checkFront_declared (hmain : M.getFunction "main" = some main) (h : main.isDeclaration = true) :
    checkFront (withAtexit M) main.id = .error .emptyList := by
  have hblocks : main.blocks = [] := by simpa [Function.isDeclaration] using h
  rw [checkFront, function?_withAtexit_main hM hmain, Option.map_some, hblocks]

/-- **The loop fails as its blocks do**, once `setup` has got through. -/
theorem runOnModule_of_blocks (hs : SetupCond M main) {e : Failure}
    (h : ∀ B : BasicBlock, B.WellFormed → ∀ n, runOnBasicBlock (withReport M main) n B = .error e) :
    runOnModule M = .error e := by
  have hwf := withReport_wellFormed hM hs
  refine bind_eq_error.mpr (.inr ⟨_, setup_eq hs, bind_eq_error.mpr (.inl ?_)⟩)
  exact runOnFunctions_error (fun F hF _ B hB => h B ((hwf.functions F hF).blocks B hB)) (exists_visited hM hs)

/-- **Each outcome happens** under its condition. -/
theorem Outcome.runOnModule {r : Except Failure Module} (h : Outcome M r) : runOnModule M = r := by
  induction h with
  | noMain hmain => exact runOnModule_of_setup (setup_noMain hmain)
  | badHandler hmain hbad =>
    exact runOnModule_of_setup (setup_badHandler hmain fun hok => hbad (okSymbol_handler_iff.mp hok))
  | badAtexit hmain hhandler hbad =>
    exact runOnModule_of_setup (setup_badAtexit hmain (okSymbol_handler_iff.mpr hhandler)
      fun hok => hbad (okSymbol_atexit_iff.mp hok))
  | declaredMain hu hdecl =>
    exact runOnModule_of_setup (setup_front hu.mainFn (okSymbol_handler_iff.mpr hu.handler)
      (okSymbol_atexit_iff.mpr hu.atexit) (checkFront_declared hM hu.mainFn hdecl))
  | badPrintf hu hdef hbad =>
    exact runOnModule_of_setup (setup_badPrintf hu.mainFn (okSymbol_handler_iff.mpr hu.handler)
      (okSymbol_atexit_iff.mpr hu.atexit) ((checkFront_withAtexit_iff hM hu.mainFn).mpr hdef)
      fun hok => hbad (okSymbol_printf_iff.mp hok))
  | noCounter hc hfound =>
    refine runOnModule_of_blocks hM (hc.setupCond hM) fun B _ n => ?_
    rw [runOnBasicBlock, getGlobalVariable_eq_foundCounter, hfound]
  | badCounter hc hfound hty =>
    refine runOnModule_of_blocks hM (hc.setupCond hM) fun B hB n => ?_
    obtain ⟨t, ht⟩ := Option.isSome_iff_exists.mp hB.getTerminator_isSome
    rw [runOnBasicBlock, getGlobalVariable_eq_foundCounter, hfound]
    simp only [ht, if_neg hty]
  | counted hc hfound hty =>
    exact runOnModule_of_found hM (hc.setupCond hM) ((getGlobalVariable_eq_foundCounter _ _).trans hfound) hty

omit hM in
/-- **One of the outcomes is met.** -/
theorem exists_outcome (M : Module) : ∃ r, Outcome M r := by
  cases hmain : M.getFunction "main" with
  | none => exact ⟨_, .noMain hmain⟩
  | some main =>
    by_cases hhandler : OkSymbol M atexitCallStr atexitCallTy
    · by_cases hatexit : OkSymbol M "atexit" atexitTy
      · have hu : Usable M main := ⟨hmain, hhandler, hatexit⟩
        cases hdef : main.isDeclaration with
        | true => exact ⟨_, .declaredMain hu hdef⟩
        | false =>
          by_cases hprintf : OkSymbol M "printf" printfTy
          · have hc : Complete M main := ⟨hu, hdef, hprintf⟩
            cases hfound : foundCounter M with
            | none => exact ⟨_, .noCounter hc hfound⟩
            | some c =>
              by_cases hty : c.valueType = .i64
              · exact ⟨_, .counted hc hfound hty⟩
              · exact ⟨_, .badCounter hc hfound hty⟩
          · exact ⟨_, .badPrintf hu hdef hprintf⟩
      · exact ⟨_, .badAtexit hmain hhandler hatexit⟩
    · exact ⟨_, .badHandler hmain hhandler⟩

end Pass

/-- **The outcomes of `count-bb` on a well-formed module** are exactly these, each under its condition on what the
module has under the names the pass uses. -/
theorem runOnModule_eq_iff {M : Module} (hM : M.WellFormed) (r : Except Failure Module) :
    runOnModule M = r ↔ Outcome M r := by
  constructor
  · rintro rfl
    obtain ⟨r, hr⟩ := exists_outcome M
    exact (hr.runOnModule hM).symm ▸ hr
  · intro h
    exact h.runOnModule hM

/-- `int bbCounter = 7; int main() { return 0; }`. -/
def narrowModule : Module :=
  ⟨[returnMain], [⟨1, "bbCounter", .i32, false, .external, some (.int 32 7)⟩], [], [], [], 2, 0⟩

/-- A 32-bit variable of that name stops the pass at the addition. -/
theorem runOnModule_narrowModule : runOnModule narrowModule =
    .error (.assertFailed "Cannot create binary operator with two operands of differing type!") := by
  have hM : narrowModule.WellFormed := Module.Verified.wellFormed (by decide)
  have hc : Complete narrowModule returnMain :=
    ⟨⟨rfl, okSymbol_of_free (by decide), okSymbol_of_free (by decide)⟩, rfl, okSymbol_of_free (by decide)⟩
  exact (runOnModule_eq_iff hM _).mpr (.badCounter hc (if_pos (by decide)) (by decide))

end SnippetsLlvm.CountBB
