import SnippetsLlvm.CountBB.WellFormed

/-!
# What the names find after a run

The functions a run of `count-bb` refers to by name, whatever the module had under these names, and what the run does
to a function.

* `bodyOf` — the blocks of the function a name finds;
* `rewritten` — a function after the run;
* `getFunction_atexit`, `getFunction_printf` — the function that registers and the one that prints are those of the names;
* `getFunction_handler` — **the handler is the function of its name, with one report more**.
-/

namespace SnippetsLlvm.CountBB

open SnippetsLlvm.Ir SnippetsLlvm.Library

/-- The blocks of the function a name finds. -/
def bodyOf (M : Module) (name : String) : List BasicBlock :=
  ((M.getFunction name).map Function.blocks).getD []

/-- The address of the first element of a variable. -/
def elementAt (G : GlobalVariable) : Constant :=
  .expr (.getElementPtr G.valueType) .i8Ptr [G.ref, .int 32 0, .int 32 0]

/-! ### Functions by name -/

/-- Two functions of a well-formed module with one identity are the same. -/
theorem eq_of_function_id {M : Module} (hM : M.WellFormed) {F G : Function} (hF : F ∈ M.functions)
    (hG : G ∈ M.functions) (hid : F.id = G.id) : F = G := by
  have heq := hM.function?_of_mem hF
  rw [hid, hM.function?_of_mem hG, Option.some.injEq] at heq
  exact heq.symm

theorem getFunction_of_mem {M : Module} (hM : (M.names.filter (· ≠ "")).Nodup) {F : Function} {name : String}
    (hF : F ∈ M.functions) (hname : F.name = name) (hne : name ≠ "") : M.getFunction name = some F := by
  have hmem : GlobalValue.function F ∈ M.globalValues := by simp [Module.globalValues, hF]
  rw [← hname] at hne ⊢
  exact Module.getFunction_eq_some.mpr (Module.getNamedValue_of_mem hM hmem hne)

/-- What `getOrInsertFunction` hands out is there, under its name, with the body it had. -/
theorem exists_symbol {M : Module} {name : String} {ty : FunctionType} (attrs : AttributeList)
    (hok : OkSymbol M name ty) : ∃ F ∈ (withSymbol M name ty attrs).functions,
      F.id = symbolId M name ∧ F.name = name ∧ F.type = ty ∧ F.blocks = bodyOf M name := by
  cases hV : M.getNamedValue name with
  | none =>
    have hfree := Module.getNamedValue_eq_none_iff.mp hV
    have hnone : M.getFunction name = none := by rw [Module.getFunction, hV]
    refine ⟨(M.addFunction ty .external name attrs).2, ?_, ?_, ?_, rfl, ?_⟩
    · rw [withSymbol, hV]
      exact List.mem_append_right _ (List.mem_singleton_self _)
    · rw [symbolId, hV]
      rfl
    · show (M.uniqueName name).1 = name
      rw [Module.uniqueName_of_notMem hfree]
    · rw [bodyOf, hnone]
      rfl
  | some V =>
    obtain ⟨F, rfl, rfl⟩ := hok V hV
    have hF : M.getFunction name = some F := Module.getFunction_eq_some.mpr hV
    refine ⟨F, ?_, ?_, Module.name_of_getFunction hF, rfl, ?_⟩
    · rw [withSymbol, hV]
      exact Module.mem_functions_of_getFunction hF
    · rw [symbolId, hV]
      rfl
    · rw [bodyOf, hF]
      rfl

/-! ### One run, function by function -/

/-- A function after a run on the module `N`. -/
def rewritten (N : Module) (main : Function) (c : GlobalVariable) (F : Function) : Function :=
  let F' := if F.id = main.id then registerAtFront (atexitId N) (handlerId N) F else F
  countUnlessHandler c
    (if F'.id = handlerId N then appendReport (counter N) (printfId N main) (format N main) F' else F')

section OneRun

variable {N : Module} {main : Function} {c : GlobalVariable}

/-- The functions declared before the registration are rewritten, and `printf` is there besides. -/
theorem mem_instrumented_iff {F' : Function} : F' ∈ (instrumented N main c).functions ↔
    ∃ F ∈ (withPrintf N main).functions, F' = countUnlessHandler c
      (if F.id = handlerId N then appendReport (counter N) (printfId N main) (format N main) F else F) := by
  rw [instrumented, withReport_functions, List.map_map, List.mem_map]
  exact exists_congr fun F => and_congr Iff.rfl eq_comm

theorem mem_instrumented_of_withAtexit {F : Function} (hF : F ∈ (withAtexit N).functions) :
    rewritten N main c F ∈ (instrumented N main c).functions := by
  refine mem_instrumented_iff.mpr ⟨_, functions_subset_withSymbol ?_, rfl⟩
  rw [withRegister_functions]
  exact List.mem_map_of_mem hF

theorem mem_instrumented_of_mem {F : Function} (hF : F ∈ N.functions) :
    rewritten N main c F ∈ (instrumented N main c).functions :=
  mem_instrumented_of_withAtexit (functions_subset_withSymbol (functions_subset_withSymbol hF))

@[simp] theorem rewritten_id (F : Function) : (rewritten N main c F).id = F.id := by
  rw [rewritten, countUnlessHandler_id]
  split <;> split <;> simp

@[simp] theorem rewritten_name (F : Function) : (rewritten N main c F).name = F.name := by
  rw [rewritten, (keepsHeader_countUnlessHandler c).name]
  split <;> split <;> simp

@[simp] theorem rewritten_type (F : Function) : (rewritten N main c F).type = F.type := by
  rw [rewritten, (keepsHeader_countUnlessHandler c).type]
  split <;> split <;> simp [(keepsHeader_appendReport _ _ _).type]

/-- What the handler has in front of the registration. -/
theorem exists_handler (hs : SetupCond N main) : ∃ H ∈ (withAtexit N).functions,
    H.id = handlerId N ∧ H.name = atexitCallStr ∧ H.type = atexitCallTy ∧ H.blocks = bodyOf N atexitCallStr := by
  obtain ⟨H, hH, hid, hname, hty, hblocks⟩ := exists_symbol ⟨[], []⟩ hs.handler
  refine ⟨H, functions_subset_withSymbol hH, hid, hname, hty, ?_⟩
  rw [hblocks, bodyOf, bodyOf, Module.getFunction, getNamedValue_withCounter (by decide), ← Module.getFunction]

theorem countUnlessHandler_nil {F : Function} (hB : F.blocks = []) : (countUnlessHandler c F).blocks = [] := by
  rw [countUnlessHandler]
  split
  · exact hB
  · rw [countFunction, hB, countBlocks]

/-- A declaration stays one. -/
theorem rewritten_nil {F : Function} (hB : F.blocks = []) (hid : F.id ≠ handlerId N) :
    (rewritten N main c F).blocks = [] := by
  have hregister : (if F.id = main.id then registerAtFront (atexitId N) (handlerId N) F else F) = F := by
    split
    · rw [registerAtFront, hB]
    · rfl
  rw [rewritten, hregister, if_neg hid]
  exact countUnlessHandler_nil hB

/-- The functions after the run: those before it, the handler, and declarations. -/
theorem mem_instrumented_cases {F' : Function} (h : F' ∈ (instrumented N main c).functions) :
    (∃ F ∈ N.functions, F.id = F'.id) ∨ F'.id = handlerId N ∨ F'.blocks = [] := by
  by_cases hid : F'.id = handlerId N
  · exact .inr (.inl hid)
  · obtain ⟨F, hF, rfl⟩ := mem_instrumented_iff.mp h
    rcases mem_withSymbol hF with hF | ⟨hB, -, -⟩
    · rw [withRegister_functions] at hF
      obtain ⟨G, hG, rfl⟩ := List.mem_map.mp hF
      have hrw : (rewritten N main c G).id ≠ handlerId N := hid
      rw [rewritten_id] at hrw
      have hnew : G.blocks = [] → (rewritten N main c G).blocks = [] := fun hB => rewritten_nil hB hrw
      rcases mem_withSymbol hG with hG | ⟨hB, -, -⟩
      · rcases mem_withSymbol hG with hG | ⟨hB, -, -⟩
        · exact .inl ⟨G, hG, (rewritten_id G).symm⟩
        · exact .inr (.inr (hnew hB))
      · exact .inr (.inr (hnew hB))
    · have hF' : F.id ≠ handlerId N := by
        intro heq
        rw [if_pos heq, countUnlessHandler_id] at hid
        exact hid heq
      rw [if_neg hF']
      exact .inr (.inr (countUnlessHandler_nil hB))

theorem geti8StrVal_spec (M : Module) (str name : String) : ∃ G ∈ (geti8StrVal M str name).1.globals,
    G.id = M.nextGlobal ∧ G.initializer = some (.dataArray G.valueType (cString str)) ∧
      (geti8StrVal M str name).2 = elementAt G :=
  ⟨_, List.mem_append_right _ (List.mem_singleton_self _), rfl, rfl, rfl⟩

/-- The format of a run. -/
theorem exists_format (N : Module) (main : Function) (c : GlobalVariable) :
    ∃ G ∈ (instrumented N main c).globals, G.id = (withPrintf N main).nextGlobal ∧
      G.initializer = some (.dataArray G.valueType (cString formatStr)) ∧ format N main = elementAt G := by
  rw [instrumented_globals_eq, withReport, Module.modifyFunction_globals]
  exact geti8StrVal_spec (withPrintf N main) formatStr "fmt"

variable (hN : N.WellFormed) (hs : SetupCond N main)
include hN hs

/-- The names of the result are distinct, as the loop over the functions leaves them alone. -/
theorem names_instrumented : ((instrumented N main c).names.filter (· ≠ "")).Nodup := by
  have hnames : (instrumented N main c).names = (withReport N main).names :=
    map_mapFunctions GlobalValue.name (keepsHeader_countUnlessHandler c).name
  rw [hnames]
  exact (withReport_wellFormed hN hs).names

/-- `atexit` is there after the run, with the type asked for. -/
theorem getFunction_atexit : ∃ F, (instrumented N main c).getFunction "atexit" = some F ∧ F.id = atexitId N ∧
    F.type = atexitTy := by
  obtain ⟨F, hF, hid, hname, hty, -⟩ := exists_symbol ⟨["nounwind"], []⟩ hs.atexit
  exact ⟨rewritten N main c F, getFunction_of_mem (names_instrumented hN hs) (mem_instrumented_of_withAtexit hF)
    ((rewritten_name F).trans hname) (by decide), (rewritten_id F).trans hid, (rewritten_type F).trans hty⟩

/-- So is `printf`. -/
theorem getFunction_printf : ∃ F, (instrumented N main c).getFunction "printf" = some F ∧ F.id = printfId N main ∧
    F.type = printfTy := by
  obtain ⟨F, hF, hid, hname, hty, -⟩ := exists_symbol ⟨[], []⟩ hs.printf
  have hreport := (keepsHeader_appendReport (counter N) (printfId N main) (format N main)).ite (handlerId N)
  have hcount := keepsHeader_countUnlessHandler c
  exact ⟨_, getFunction_of_mem (names_instrumented hN hs) (mem_instrumented_iff.mpr ⟨F, hF, rfl⟩)
    ((hcount.name _).trans ((hreport.name F).trans hname)) (by decide), (hcount.id _).trans ((hreport.id F).trans hid),
    (hcount.type _).trans ((hreport.type F).trans hty)⟩

/-- `main` after the run. -/
theorem getFunction_main_again : (instrumented N main c).getFunction "main" = some (rewritten N main c main) :=
  getFunction_of_mem (names_instrumented hN hs)
    (mem_instrumented_of_mem (Module.mem_functions_of_getFunction hs.mainFn)) ((rewritten_name main).trans (Module.name_of_getFunction hs.mainFn)) (by decide)

/-- **The handler after the run** has one report more, under a name that no block of it had. -/
theorem getFunction_handler : ∃ H b m n, (instrumented N main c).getFunction atexitCallStr = some H ∧
    H.id = handlerId N ∧ H.type = atexitCallTy ∧ m ∉ (bodyOf N atexitCallStr).map BasicBlock.name ∧
    H.blocks = bodyOf N atexitCallStr ++
      [reportBlock b m n (counter N) (printfId N main) (format N main)] := by
  obtain ⟨H, hH, hid, hname, hty, hblocks⟩ := exists_handler hs
  refine ⟨rewritten N main c H, H.nextBlock, H.uniqueBlockName "entry", H.nextValue,
    getFunction_of_mem (names_instrumented hN hs) (mem_instrumented_of_withAtexit hH)
      ((rewritten_name H).trans hname) (by decide),
    (rewritten_id H).trans hid, (rewritten_type H).trans hty, hblocks ▸ Module.uniqueBlockName_notMem H "entry", ?_⟩
  have hmain : H.id ≠ main.id := by
    rw [hid]
    exact handlerId_ne_main hN hs
  have hname' : (appendReport (counter N) (printfId N main) (format N main) H).name = atexitCallStr := hname
  rw [rewritten, if_neg hmain, if_pos hid, countUnlessHandler, if_pos hname', appendReport, hblocks]

/-- The handler is the function of its name. -/
theorem id_handler_iff {F : Function} (hF : F ∈ N.functions) : F.id = handlerId N ↔ F.name = atexitCallStr := by
  obtain ⟨H, hH, hid, hname, -, -⟩ := exists_handler hs
  have hmem : F ∈ (withAtexit N).functions := functions_subset_withSymbol (functions_subset_withSymbol hF)
  have hwf := withAtexit_wellFormed hN
  constructor
  · intro heq
    rw [eq_of_function_id hwf hmem hH (heq.trans hid.symm), hname]
  · intro heq
    have h₁ := getFunction_of_mem hwf.names hmem heq (by decide)
    rw [getFunction_of_mem hwf.names hH hname (by decide), Option.some.injEq] at h₁
    rw [← h₁, hid]

end OneRun

end SnippetsLlvm.CountBB
