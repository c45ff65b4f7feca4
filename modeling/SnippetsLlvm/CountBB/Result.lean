import SnippetsLlvm.CountBB.Pass
import SnippetsLlvm.Library.Emission

/-!
# What `count-bb` produces

The pass is a chain of edits with a failure between any two of them.  This file takes the chain apart once:

* `OkSymbol` — the condition under which `getOrInsertFunction` followed by `cast<Function>` succeeds: the
  name is free, or it names a function of exactly the asked type;
* `setup_eq`, `setup_inv` — `setup` succeeds exactly under these conditions, and its result is the module
  `withReport` built by naming each edit;
* `runOnFunctions_eq`, `runOnFunctions_inv` — the loop over the functions succeeds exactly when the name
  `bbCounter` finds a 64-bit variable and every visited block has a terminator;
* `runOnModule_eq`, `runOnModule_inv` — the two together.
-/

namespace SnippetsLlvm.CountBB

open SnippetsLlvm.Ir SnippetsLlvm.Library

/-! ### Getting or inserting a function -/

/-- The name is free, or names a function of the given type. -/
def OkSymbol (M : Module) (name : String) (ty : FunctionType) : Prop :=
  ∀ V, M.getNamedValue name = some V → ∃ F, V = .function F ∧ F.type = ty

/-- The identity `getOrInsertFunction` hands out. -/
def symbolId (M : Module) (name : String) : ℕ :=
  match M.getNamedValue name with
  | some V => V.id
  | none => M.nextGlobal

/-- The module after `getOrInsertFunction`. -/
def withSymbol (M : Module) (name : String) (ty : FunctionType) (attrs : AttributeList) : Module :=
  match M.getNamedValue name with
  | some _ => M
  | none => (M.addFunction ty .external name attrs).1

theorem getOrInsertFunction_fst (M : Module) (name : String) (ty : FunctionType)
    (attrs : AttributeList) : (M.getOrInsertFunction name ty attrs).1 = withSymbol M name ty attrs := by
  rw [Module.getOrInsertFunction, withSymbol]
  cases hV : M.getNamedValue name with
  | none => rfl
  | some V =>
    dsimp only
    split <;> rfl

theorem castFunction_getOrInsert {M : Module} {name : String} {ty : FunctionType}
    {attrs : AttributeList} (h : OkSymbol M name ty) :
    Module.castFunction (M.getOrInsertFunction name ty attrs).2 = .ok (symbolId M name) := by
  rw [Module.getOrInsertFunction, symbolId]
  cases hV : M.getNamedValue name with
  | none => rfl
  | some V =>
    obtain ⟨F, rfl, rfl⟩ := h V hV
    have hty : (GlobalValue.function F).getType = F.type.ptrTy := rfl
    dsimp only
    rw [if_pos hty]
    rfl

theorem okSymbol_of_cast {M : Module} {name : String} {ty : FunctionType} {attrs : AttributeList}
    {g : ℕ} (h : Module.castFunction (M.getOrInsertFunction name ty attrs).2 = .ok g) :
    OkSymbol M name ty := by
  intro V hV
  rw [Module.getOrInsertFunction, hV] at h
  dsimp only at h
  split at h
  · rename_i hty
    cases V with
    | function F =>
      refine ⟨F, rfl, ?_⟩
      have hptr : F.type.ptrTy = ty.ptrTy := hty
      rw [FunctionType.ptrTy, FunctionType.ptrTy, Ty.pointer.injEq] at hptr
      exact FunctionType.toTy_inj.mp hptr.1
    | _ => cases h
  · cases h

/-- A name that is found after the counter was created was there before, and the other way round. -/
theorem okSymbol_congr {M M' : Module} {name : String} {ty : FunctionType}
    (h : M'.getNamedValue name = M.getNamedValue name) : OkSymbol M' name ty ↔ OkSymbol M name ty := by
  rw [OkSymbol, OkSymbol, h]

theorem getNamedValue_withSymbol_ne {M : Module} {name n : String} {ty : FunctionType}
    {attrs : AttributeList} (h : name ≠ n) :
    (withSymbol M name ty attrs).getNamedValue n = M.getNamedValue n := by
  rw [withSymbol]
  split
  · rfl
  · rename_i hnone
    have hfree := Module.getNamedValue_eq_none_iff.mp hnone
    exact Module.getNamedValue_addFunction_ne (by rwa [Module.uniqueName_of_notMem hfree])

/-! ### The edits of `setup`, one by one -/

section Stages

variable (M : Module) (main : Function)

/-- The variable `setup` creates. -/
def counter : GlobalVariable :=
  (M.addGlobalVariable .i64 false .external (some (.int 64 0)) "bbCounter").2

theorem counter_valueType : (counter M).valueType = .i64 := rfl

/-- The module with the counter. -/
def withCounter : Module :=
  (M.addGlobalVariable .i64 false .external (some (.int 64 0)) "bbCounter").1

/-- The handler function. -/
def handlerId : ℕ := symbolId (withCounter M) atexitCallStr

/-- The module with the handler declared. -/
def withHandler : Module := withSymbol (withCounter M) atexitCallStr atexitCallTy ⟨[], []⟩

/-- The function `atexit`. -/
def atexitId : ℕ := symbolId (withHandler M) "atexit"

/-- The module with `atexit` declared. -/
def withAtexit : Module := withSymbol (withHandler M) "atexit" atexitTy ⟨["nounwind"], []⟩

/-- The module with the registration in `main`. -/
def withRegister : Module :=
  (withAtexit M).modifyFunction main.id (registerAtFront (atexitId M) (handlerId M))

/-- The function `printf`. -/
def printfId : ℕ := symbolId (withRegister M main) "printf"

/-- The module with `printf` declared. -/
def withPrintf : Module := withSymbol (withRegister M main) "printf" printfTy ⟨[], []⟩

/-- The address of the format string. -/
def format : Constant := (geti8StrVal (withPrintf M main) formatStr "fmt").2

/-- The module with the format string. -/
def withFormat : Module := (geti8StrVal (withPrintf M main) formatStr "fmt").1

/-- The module with the reporting block. -/
def withReport : Module :=
  (withFormat M main).modifyFunction (handlerId M)
    (appendReport (counter M) (printfId M main) (format M main))

end Stages

/-- What `setup` needs. -/
structure SetupCond (M : Module) (main : Function) : Prop where
  mainFn : M.getFunction "main" = some main
  handler : OkSymbol (withCounter M) atexitCallStr atexitCallTy
  atexit : OkSymbol (withHandler M) "atexit" atexitTy
  front : checkFront (withAtexit M) main.id = .ok ()
  printf : OkSymbol (withRegister M main) "printf" printfTy

theorem createAtexitCall_eq {M : Module} {F : ℕ} {c : GlobalVariable}
    (h : OkSymbol M "printf" printfTy) :
    createAtexitCall M F c =
      .ok ((geti8StrVal (withSymbol M "printf" printfTy ⟨[], []⟩) formatStr "fmt").1.modifyFunction F
        (appendReport c (symbolId M "printf")
          (geti8StrVal (withSymbol M "printf" printfTy ⟨[], []⟩) formatStr "fmt").2)) := by
  simp only [createAtexitCall, castFunction_getOrInsert h, getOrInsertFunction_fst]
  rfl

theorem setup_eq {M : Module} {main : Function} (h : SetupCond M main) :
    setup M = .ok (withReport M main) := by
  simp only [setup, h.mainFn, getOrInsertFunction_fst]
  refine bind_eq_ok.mpr ⟨_, castFunction_getOrInsert h.handler, ?_⟩
  refine bind_eq_ok.mpr ⟨_, castFunction_getOrInsert h.atexit, ?_⟩
  refine bind_eq_ok.mpr ⟨(), h.front, ?_⟩
  exact createAtexitCall_eq h.printf

theorem castFunction_inv {M : Module} {name : String} {ty : FunctionType} {attrs : AttributeList}
    {g : ℕ} (h : Module.castFunction (M.getOrInsertFunction name ty attrs).2 = .ok g) :
    OkSymbol M name ty ∧ g = symbolId M name := by
  have hok := okSymbol_of_cast h
  rw [castFunction_getOrInsert hok, Except.ok.injEq] at h
  exact ⟨hok, h.symm⟩

theorem setup_inv {M M' : Module} (h : setup M = .ok M') :
    ∃ main, SetupCond M main ∧ M' = withReport M main := by
  rw [setup] at h
  cases hmain : M.getFunction "main" with
  | none => rw [hmain] at h; cases h
  | some main =>
    rw [hmain] at h
    obtain ⟨_, hh, h⟩ := bind_eq_ok.mp h
    obtain ⟨hhandler, rfl⟩ := castFunction_inv hh
    obtain ⟨_, ha, h⟩ := bind_eq_ok.mp h
    rw [getOrInsertFunction_fst] at ha h
    obtain ⟨hatexit, rfl⟩ := castFunction_inv ha
    obtain ⟨_, hfront, h⟩ := bind_eq_ok.mp h
    rw [getOrInsertFunction_fst] at hfront h
    have hreport := h
    rw [createAtexitCall] at hreport
    obtain ⟨_, hp, -⟩ := bind_eq_ok.mp hreport
    have hcond : SetupCond M main := ⟨hmain, hhandler, hatexit, hfront, (castFunction_inv hp).1⟩
    have heq : createAtexitCall (withRegister M main) (handlerId M) (counter M) = _ :=
      createAtexitCall_eq hcond.printf
    exact ⟨main, hcond, Except.ok.inj (h.symm.trans heq)⟩

/-! ### The loop over the functions -/

/-- The blocks of a function with the counting code in each. -/
def countBlocks (c : GlobalVariable) : ℕ → List BasicBlock → List BasicBlock
  | _, [] => []
  | n, B :: Bs => B.insertBeforeLast (countInsts n c) :: countBlocks c (n + 3) Bs

/-- A function with the counting code in each of its blocks. -/
def countFunction (c : GlobalVariable) (F : Function) : Function :=
  { F with blocks := countBlocks c F.nextValue F.blocks,
           nextValue := F.nextValue + 3 * F.blocks.length }

/-- The loop body when it succeeds. -/
def countUnlessHandler (c : GlobalVariable) (F : Function) : Function :=
  if F.name = atexitCallStr then F else countFunction c F

/-- What the loop needs of a block: the counter is found, with its type, and there is a terminator. -/
def BlockCond (M : Module) (c : GlobalVariable) (B : BasicBlock) : Prop :=
  M.getGlobalVariable bbCounterStr = some c ∧ c.valueType = .i64 ∧ B.getTerminator.isSome = true

theorem runOnBasicBlock_eq {M : Module} {c : GlobalVariable} {B : BasicBlock} (h : BlockCond M c B)
    (n : ℕ) : runOnBasicBlock M n B = .ok (B.insertBeforeLast (countInsts n c)) := by
  obtain ⟨t, ht⟩ := Option.isSome_iff_exists.mp h.2.2
  simp only [runOnBasicBlock, h.1, ht, h.2.1, if_true]

theorem runOnBasicBlock_inv {M : Module} {n : ℕ} {B B' : BasicBlock}
    (h : runOnBasicBlock M n B = .ok B') :
    ∃ c, BlockCond M c B ∧ B' = B.insertBeforeLast (countInsts n c) := by
  rw [runOnBasicBlock] at h
  split at h
  · cases h
  · rename_i c hc
    split at h
    · cases h
    · rename_i t ht
      split at h
      · rename_i hty
        exact ⟨c, ⟨hc, hty, by rw [ht]; rfl⟩, (Except.ok.inj h).symm⟩
      · cases h

theorem runOnBlocks_eq {M : Module} {c : GlobalVariable} {Bs : List BasicBlock}
    (h : ∀ B ∈ Bs, BlockCond M c B) (n : ℕ) :
    runOnBlocks M n Bs = .ok (countBlocks c n Bs) := by
  induction Bs generalizing n with
  | nil => rfl
  | cons B Bs ih =>
    rw [runOnBlocks, runOnBasicBlock_eq (h B (by simp)),
      ih (fun B' hB' => h B' (by simp [hB'])) (n + 3)]
    rfl

theorem runOnBlocks_inv {M : Module} {n : ℕ} {Bs Bs' : List BasicBlock}
    (h : runOnBlocks M n Bs = .ok Bs') : ∀ B ∈ Bs, ∃ c, BlockCond M c B := by
  induction Bs generalizing n Bs' with
  | nil => simp
  | cons B Bs ih =>
    obtain ⟨B', hB, h⟩ := bind_eq_ok.mp h
    obtain ⟨Bs'', hBs, -⟩ := bind_eq_ok.mp h
    obtain ⟨c, hc, -⟩ := runOnBasicBlock_inv hB
    intro A hA
    rcases List.mem_cons.mp hA with rfl | hA
    · exact ⟨c, hc⟩
    · exact ih hBs A hA

/-- What the loop needs of a module: every block it visits. -/
def LoopCond (M : Module) (c : GlobalVariable) (Fs : List Function) : Prop :=
  ∀ F ∈ Fs, F.name ≠ atexitCallStr → ∀ B ∈ F.blocks, BlockCond M c B

theorem runOnFunction_eq {M : Module} {c : GlobalVariable} {F : Function}
    (h : F.name ≠ atexitCallStr → ∀ B ∈ F.blocks, BlockCond M c B) :
    runOnFunction M F = .ok (countUnlessHandler c F) := by
  rw [runOnFunction, countUnlessHandler]
  split
  · rfl
  · rename_i hname
    rw [runOnBlocks_eq (h hname)]
    rfl

theorem runOnFunctions_eq {M : Module} {c : GlobalVariable} {Fs : List Function}
    (h : LoopCond M c Fs) : runOnFunctions M Fs = .ok (Fs.map (countUnlessHandler c)) := by
  induction Fs with
  | nil => rfl
  | cons F Fs ih =>
    rw [runOnFunctions, runOnFunction_eq (h F (by simp)), ih fun F' hF' => h F' (by simp [hF'])]
    rfl

theorem runOnFunction_inv {M : Module} {F F' : Function} (h : runOnFunction M F = .ok F')
    (hname : F.name ≠ atexitCallStr) : ∀ B ∈ F.blocks, ∃ c, BlockCond M c B := by
  rw [runOnFunction, if_neg hname] at h
  obtain ⟨Bs, hBs, -⟩ := bind_eq_ok.mp h
  exact runOnBlocks_inv hBs

theorem runOnFunctions_inv {M : Module} {Fs Fs' : List Function} (h : runOnFunctions M Fs = .ok Fs') :
    ∀ F ∈ Fs, F.name ≠ atexitCallStr → ∀ B ∈ F.blocks, ∃ c, BlockCond M c B := by
  induction Fs generalizing Fs' with
  | nil => simp
  | cons F Fs ih =>
    obtain ⟨F', hF, h⟩ := bind_eq_ok.mp h
    obtain ⟨Fs'', hFs, -⟩ := bind_eq_ok.mp h
    intro G hG hname
    rcases List.mem_cons.mp hG with rfl | hG
    · exact runOnFunction_inv hF hname
    · exact ih hFs G hG hname

/-! ### The whole pass -/

/-- The module the pass returns when `bbCounter` finds the variable `c`. -/
def instrumented (M : Module) (main : Function) (c : GlobalVariable) : Module :=
  { withReport M main with
    functions := (withReport M main).functions.map (countUnlessHandler c) }

theorem runOnModule_eq {M : Module} {main : Function} {c : GlobalVariable} (hs : SetupCond M main)
    (hl : LoopCond (withReport M main) c (withReport M main).functions) :
    runOnModule M = .ok (instrumented M main c) := by
  rw [runOnModule, setup_eq hs]
  refine bind_eq_ok.mpr ⟨_, rfl, bind_eq_ok.mpr ⟨_, runOnFunctions_eq hl, rfl⟩⟩

/-- **The pass inverted.**  `hvisit` gives one visited block; the block of `main` always is one. -/
theorem runOnModule_inv {M M' : Module} (h : runOnModule M = .ok M') :
    ∃ main, SetupCond M main ∧
      ∀ F ∈ (withReport M main).functions, F.name ≠ atexitCallStr → ∀ B ∈ F.blocks,
        ∃ c, BlockCond (withReport M main) c B ∧ M' = instrumented M main c := by
  obtain ⟨M₁, hs, h⟩ := bind_eq_ok.mp h
  obtain ⟨main, hcond, rfl⟩ := setup_inv hs
  obtain ⟨Fs, hFs, h⟩ := bind_eq_ok.mp h
  refine ⟨main, hcond, fun F hF hname B hB => ?_⟩
  obtain ⟨c, hc⟩ := runOnFunctions_inv hFs F hF hname B hB
  have hl : LoopCond (withReport M main) c (withReport M main).functions := by
    intro F' hF' hname' B' hB'
    obtain ⟨c', hc'⟩ := runOnFunctions_inv hFs F' hF' hname' B' hB'
    have : c' = c := Option.some.inj (hc'.1.symm.trans hc.1)
    exact this ▸ hc'
  rw [runOnFunctions_eq hl, Except.ok.injEq] at hFs
  subst hFs
  exact ⟨c, hc, (Except.ok.inj h).symm⟩

end SnippetsLlvm.CountBB
