import SnippetsLlvm.CountBB.Result

/-!
# The instrumented module, looked up by identity

For a module in which the names `bbCounter` and `setupAtExit` are free, this file says what each identity
stands for after `count-bb`: the old functions with the counting code in their blocks, and the registration
at the front of `main`; the handler with its one reporting block; the counter; and nothing but declarations
besides.

* `Ready` — the modules `count-bb` is meant for;
* `Ready.runOnModule` — on them the pass succeeds;
* `function?_old`, `function?_handler`, `function?_other` — the functions of the result;
* `block?_counted`, `block?_inv`, `block?_handler` — their blocks;
* `instrumented_globals`, `global?_counter` — its variables.
-/

namespace SnippetsLlvm.CountBB

open SnippetsLlvm.Ir

/-- A well-formed module with a defined `main`, free names for the counter and the handler, and `printf`
and `atexit` absent or functions of the types the pass uses. -/
structure Ready (M : Module) (main : Function) : Prop where
  wf : M.WellFormed
  mainFn : M.getFunction "main" = some main
  defined : main.isDeclaration = false
  noCounter : bbCounterStr ∉ M.names
  noHandler : atexitCallStr ∉ M.names
  printf : OkSymbol M "printf" printfTy
  atexit : OkSymbol M "atexit" atexitTy

/-! ### One more function -/

theorem function?_withSymbol_ne {M : Module} {name : String} {ty : FunctionType}
    {attrs : AttributeList} {g : ℕ} (h : g ≠ M.nextGlobal) :
    (withSymbol M name ty attrs).function? g = M.function? g := by
  rw [withSymbol]
  split
  · rfl
  · exact Module.function?_addFunction_ne h

/-- A function that was not there before is the new declaration. -/
theorem mem_withSymbol {M : Module} {name : String} {ty : FunctionType} {attrs : AttributeList}
    {F : Function} (h : F ∈ (withSymbol M name ty attrs).functions) :
    F ∈ M.functions ∨ (F.blocks = [] ∧ F.name = name ∧ F.id = M.nextGlobal) := by
  rw [withSymbol] at h
  split at h
  · exact .inl h
  · rename_i hnone
    have hfree := Module.uniqueName_of_notMem (Module.getNamedValue_eq_none_iff.mp hnone)
    simp only [Module.addFunction, hfree, List.mem_append, List.mem_singleton] at h
    rcases h with h | rfl
    · exact .inl h
    · exact .inr ⟨rfl, rfl, rfl⟩

@[simp] theorem withSymbol_globals (M : Module) (name : String) (ty : FunctionType)
    (attrs : AttributeList) : (withSymbol M name ty attrs).globals = M.globals := by
  rw [withSymbol]
  split <;> rfl

@[simp] theorem withSymbol_aliases (M : Module) (name : String) (ty : FunctionType)
    (attrs : AttributeList) : (withSymbol M name ty attrs).aliases = M.aliases := by
  rw [withSymbol]
  split <;> rfl

@[simp] theorem withSymbol_ifuncs (M : Module) (name : String) (ty : FunctionType)
    (attrs : AttributeList) : (withSymbol M name ty attrs).ifuncs = M.ifuncs := by
  rw [withSymbol]
  split <;> rfl

theorem le_withSymbol_nextGlobal (M : Module) (name : String) (ty : FunctionType)
    (attrs : AttributeList) : M.nextGlobal ≤ (withSymbol M name ty attrs).nextGlobal := by
  rw [withSymbol]
  split
  · exact Nat.le_refl _
  · exact Nat.le_succ _

theorem functions_subset_withSymbol {M : Module} {name : String} {ty : FunctionType}
    {attrs : AttributeList} {F : Function} (h : F ∈ M.functions) :
    F ∈ (withSymbol M name ty attrs).functions := by
  rw [withSymbol]
  split
  · exact h
  · exact List.mem_append_left _ h

@[simp] theorem countUnlessHandler_id (c : GlobalVariable) (F : Function) :
    (countUnlessHandler c F).id = F.id := by
  rw [countUnlessHandler]
  split <;> rfl

@[simp] theorem geti8StrVal_functions (M : Module) (str name : String) :
    (geti8StrVal M str name).1.functions = M.functions := rfl

theorem function?_geti8StrVal (M : Module) (str name : String) (g : ℕ) :
    (geti8StrVal M str name).1.function? g = M.function? g := rfl

@[simp] theorem geti8StrVal_aliases (M : Module) (str name : String) :
    (geti8StrVal M str name).1.aliases = M.aliases := rfl

@[simp] theorem geti8StrVal_ifuncs (M : Module) (str name : String) :
    (geti8StrVal M str name).1.ifuncs = M.ifuncs := rfl

/-- The address of a string is that of the first element of its array. -/
theorem geti8StrVal_snd (M : Module) (str name : String) : ∃ elem g gty,
    (geti8StrVal M str name).2 =
      .expr (.getElementPtr elem) .i8Ptr [.global g .variable gty, .int 32 0, .int 32 0] :=
  ⟨_, _, _, rfl⟩

theorem geti8StrVal_globals (M : Module) (str name : String) : ∃ G : GlobalVariable,
    G.id = M.nextGlobal ∧ (geti8StrVal M str name).1.globals = M.globals ++ [G] :=
  ⟨_, rfl, rfl⟩

theorem instrumented_globals_eq (M : Module) (main : Function) (c : GlobalVariable) :
    (instrumented M main c).globals = (withReport M main).globals := rfl

theorem instrumented_aliases_eq (M : Module) (main : Function) (c : GlobalVariable) :
    (instrumented M main c).aliases = (withReport M main).aliases := by
  rw [instrumented]

theorem instrumented_ifuncs_eq (M : Module) (main : Function) (c : GlobalVariable) :
    (instrumented M main c).ifuncs = (withReport M main).ifuncs := by
  rw [instrumented]

theorem withReport_functions (M : Module) (main : Function) :
    (withReport M main).functions = (withPrintf M main).functions.map fun F =>
      if F.id = handlerId M then
        appendReport (counter M) (printfId M main) (format M main) F
      else F := by
  simp only [withReport, Module.modifyFunction, withFormat, geti8StrVal_functions]

theorem withRegister_functions (M : Module) (main : Function) :
    (withRegister M main).functions = (withAtexit M).functions.map fun F =>
      if F.id = main.id then registerAtFront (atexitId M) (handlerId M) F else F := rfl

theorem function?_instrumented (M : Module) (main : Function) (c : GlobalVariable) (g : ℕ) :
    (instrumented M main c).function? g =
      ((withReport M main).function? g).map (countUnlessHandler c) := by
  rw [Module.function?, Module.function?, instrumented, Module.find?_map_id (countUnlessHandler_id c)]

@[simp] theorem registerAtFront_name (a h : ℕ) (F : Function) :
    (registerAtFront a h F).name = F.name := by
  rw [registerAtFront]
  split <;> rfl

@[simp] theorem registerAtFront_id (a h : ℕ) (F : Function) :
    (registerAtFront a h F).id = F.id := by
  rw [registerAtFront]
  split <;> rfl

@[simp] theorem registerAtFront_type (a h : ℕ) (F : Function) :
    (registerAtFront a h F).type = F.type := by
  rw [registerAtFront]
  split <;> rfl

@[simp] theorem appendReport_name (c : GlobalVariable) (p : ℕ) (fmt : Constant)
    (F : Function) : (appendReport c p fmt F).name = F.name := rfl

@[simp] theorem appendReport_id (c : GlobalVariable) (p : ℕ) (fmt : Constant)
    (F : Function) : (appendReport c p fmt F).id = F.id := rfl

/-- The declaration of the handler. -/
def handlerDecl (M : Module) : Function :=
  ⟨M.nextGlobal + 1, atexitCallStr, atexitCallTy, .external, ⟨[], []⟩, false, 0, none, none, none, none, [], 0, 0⟩

/-- The handler in the result. -/
def handlerFn (M : Module) (main : Function) : Function :=
  appendReport (counter M) (printfId M main) (format M main) (handlerDecl M)

theorem handlerFn_name (M : Module) (main : Function) : (handlerFn M main).name = atexitCallStr := rfl

/-! ### What the names find after `setup` -/

section Names

variable {M : Module} {main : Function}

/-- A name handed out does not start differently from the name asked for. -/
theorem uniqueName_ne {M : Module} {base n : String} (h : ¬ base.toList <+: n.toList) :
    (M.uniqueName base).1 ≠ n := by
  obtain ⟨suffix, hsuffix⟩ := M.uniqueName_append base
  rintro rfl
  refine h ?_
  rw [hsuffix, String.toList_append]
  exact List.prefix_append _ _

/-- The format string, `printf` and `atexit` apart, a name finds what it found once the handler was declared. -/
theorem getNamedValue_withReport {n : String} (hfmt : ¬ "fmt".toList <+: n.toList) (hprintf : "printf" ≠ n)
    (hatexit : "atexit" ≠ n) : (withReport M main).getNamedValue n =
      (((withHandler M).getNamedValue n).map
        (GlobalValue.edit main.id (registerAtFront (atexitId M) (handlerId M)))).map
        (GlobalValue.edit (handlerId M) (appendReport (counter M) (printfId M main) (format M main))) := by
  rw [withReport, Module.getNamedValue_modifyFunction (appendReport_name _ _ _), withFormat, geti8StrVal,
    Module.getNamedValue_addGlobalVariable_ne (uniqueName_ne hfmt), withPrintf,
    getNamedValue_withSymbol_ne hprintf, withRegister,
    Module.getNamedValue_modifyFunction (registerAtFront_name _ _), withAtexit,
    getNamedValue_withSymbol_ne hatexit]

/-- What a lookup of a variable sees does not change when function bodies do. -/
theorem getGlobalVariable_edit {N N' : Module} {n : String} {g : ℕ} {f : Function → Function}
    (h : N'.getNamedValue n = (N.getNamedValue n).map (GlobalValue.edit g f)) :
    N'.getGlobalVariable n = N.getGlobalVariable n := by
  rw [Module.getGlobalVariable, Module.getGlobalVariable, h]
  cases N.getNamedValue n with
  | none => rfl
  | some V => cases V <;> rfl

/-- The stages after the creation of the counter do not change what its name finds. -/
theorem getGlobalVariable_withReport :
    (withReport M main).getGlobalVariable bbCounterStr =
      (withCounter M).getGlobalVariable bbCounterStr := by
  have h₁ : (withReport M main).getGlobalVariable bbCounterStr =
      (withFormat M main).getGlobalVariable bbCounterStr :=
    getGlobalVariable_edit (Module.getNamedValue_modifyFunction (appendReport_name _ _ _) _)
  have h₂ : (withFormat M main).getNamedValue bbCounterStr =
      (withRegister M main).getNamedValue bbCounterStr := by
    rw [withFormat, geti8StrVal,
      Module.getNamedValue_addGlobalVariable_ne (uniqueName_ne (by decide)), withPrintf,
      getNamedValue_withSymbol_ne (by decide)]
  have h₃ : (withRegister M main).getGlobalVariable bbCounterStr =
      (withAtexit M).getGlobalVariable bbCounterStr :=
    getGlobalVariable_edit (Module.getNamedValue_modifyFunction (registerAtFront_name _ _) _)
  have h₄ : (withAtexit M).getNamedValue bbCounterStr = (withCounter M).getNamedValue bbCounterStr := by
    rw [withAtexit, getNamedValue_withSymbol_ne (by decide), withHandler,
      getNamedValue_withSymbol_ne (by decide)]
  rw [h₁, Module.getGlobalVariable, h₂, ← Module.getGlobalVariable, h₃, Module.getGlobalVariable, h₄,
    ← Module.getGlobalVariable]

/-- With the name free, the lookup finds the variable that was created. -/
theorem getGlobalVariable_of_free (h : bbCounterStr ∉ M.names) :
    (withReport M main).getGlobalVariable bbCounterStr = some (counter M) := by
  rw [getGlobalVariable_withReport, Module.getGlobalVariable, withCounter,
    Module.getNamedValue_addGlobalVariable_self h]
  rfl

end Names

/-! ### The symbols of a ready module -/

namespace Ready

variable {M : Module} {main : Function} (hM : Ready M main)
include hM

theorem main_mem : main ∈ M.functions := Module.mem_functions_of_getFunction hM.mainFn

theorem main_lt : main.id < M.nextGlobal := hM.wf.function_lt hM.main_mem

theorem counter_eq : counter M =
    ⟨M.nextGlobal, "bbCounter", .i64, false, .external, some (.int 64 0)⟩ := by
  simp only [counter, Module.addGlobalVariable, Module.uniqueName_of_notMem hM.noCounter]

theorem withCounter_getNamedValue {n : String} (hn : n ≠ bbCounterStr) :
    (withCounter M).getNamedValue n = M.getNamedValue n :=
  Module.getNamedValue_addGlobalVariable_ne
    (by rw [Module.uniqueName_of_notMem hM.noCounter]; exact hn.symm)

theorem handler_free : (withCounter M).getNamedValue atexitCallStr = none := by
  rw [hM.withCounter_getNamedValue (by decide)]
  exact Module.getNamedValue_eq_none_iff.mpr hM.noHandler

theorem handlerId_eq : handlerId M = M.nextGlobal + 1 := by
  rw [handlerId, symbolId, hM.handler_free]
  rfl

theorem main_ne_handler : main.id ≠ handlerId M := by
  have hlt := hM.main_lt
  rw [hM.handlerId_eq]
  omega

theorem withHandler_eq : withHandler M =
    ((withCounter M).addFunction atexitCallTy .external atexitCallStr ⟨[], []⟩).1 := by
  rw [withHandler, withSymbol, hM.handler_free]

theorem withHandler_nextGlobal : (withHandler M).nextGlobal = M.nextGlobal + 2 := by
  rw [hM.withHandler_eq]
  rfl

theorem withHandler_getNamedValue {n : String} (hn : n ≠ bbCounterStr) (hn' : atexitCallStr ≠ n) :
    (withHandler M).getNamedValue n = M.getNamedValue n := by
  rw [withHandler, getNamedValue_withSymbol_ne hn', hM.withCounter_getNamedValue hn]

theorem withRegister_printf : (withRegister M main).getNamedValue "printf" =
    (M.getNamedValue "printf").map
      (GlobalValue.edit main.id (registerAtFront (atexitId M) (handlerId M))) := by
  rw [withRegister, Module.getNamedValue_modifyFunction (registerAtFront_name _ _), withAtexit,
    getNamedValue_withSymbol_ne (by decide),
    hM.withHandler_getNamedValue (by decide) (by decide)]

theorem okPrintf : OkSymbol (withRegister M main) "printf" printfTy := by
  intro V hV
  rw [hM.withRegister_printf] at hV
  obtain ⟨W, hW, rfl⟩ := Option.map_eq_some_iff.mp hV
  obtain ⟨F, rfl, hF⟩ := hM.printf W hW
  refine ⟨_, rfl, ?_⟩
  split
  · rw [registerAtFront_type, hF]
  · exact hF

/-- The lookup `runOnBasicBlock` makes finds the variable `setup` created. -/
theorem getGlobalVariable_counter :
    (withReport M main).getGlobalVariable bbCounterStr = some (counter M) :=
  getGlobalVariable_of_free hM.noCounter

/-! ### The functions -/

/-- A function of the module after all declarations is an old one or an empty declaration with a new
identity; the one with the handler's identity has the handler's name. -/
theorem mem_withAtexit {F : Function} (h : F ∈ (withAtexit M).functions) :
    F ∈ M.functions ∨
      (F.blocks = [] ∧ M.nextGlobal ≤ F.id ∧ (F.id = handlerId M → F.name = atexitCallStr)) := by
  rcases mem_withSymbol h with h | ⟨hB, -, hid⟩
  · rcases mem_withSymbol h with h | ⟨hB, hname, hid⟩
    · exact .inl h
    · exact .inr ⟨hB, by rw [hid]; exact Nat.le_succ _, fun _ => hname⟩
  · have h₁ := hM.withHandler_nextGlobal
    have h₂ := hM.handlerId_eq
    exact .inr ⟨hB, by omega, fun _ => by omega⟩

theorem mem_withPrintf {F : Function} (h : F ∈ (withPrintf M main).functions) :
    (∃ G ∈ M.functions,
      F = if G.id = main.id then registerAtFront (atexitId M) (handlerId M) G else G) ∨
      (F.blocks = [] ∧ M.nextGlobal ≤ F.id ∧ (F.id = handlerId M → F.name = atexitCallStr)) := by
  rcases mem_withSymbol h with h | ⟨hB, -, hid⟩
  · rw [withRegister_functions] at h
    obtain ⟨G, hG, rfl⟩ := List.mem_map.mp h
    rcases hM.mem_withAtexit hG with hG | ⟨hB, hid, hname⟩
    · exact .inl ⟨G, hG, rfl⟩
    · have hlt := hM.main_lt
      rw [if_neg (by omega)]
      exact .inr ⟨hB, hid, hname⟩
  · have h₁ : (withHandler M).nextGlobal ≤ (withRegister M main).nextGlobal :=
      le_withSymbol_nextGlobal _ _ _ _
    have h₂ := hM.withHandler_nextGlobal
    have h₃ := hM.handlerId_eq
    exact .inr ⟨hB, by omega, fun _ => by omega⟩

theorem function?_withRegister {g : ℕ} (hg : g < M.nextGlobal + 2) :
    (withRegister M main).function? g = ((withHandler M).function? g).map fun F =>
      if F.id = main.id then registerAtFront (atexitId M) (handlerId M) F else F := by
  have hne : g ≠ (withHandler M).nextGlobal := by
    rw [hM.withHandler_nextGlobal]
    exact Nat.ne_of_lt hg
  rw [withRegister, Module.function?_modifyFunction (registerAtFront_id _ _), withAtexit,
    function?_withSymbol_ne hne]

theorem function?_withFormat {g : ℕ} (hg : g < M.nextGlobal + 2) :
    (withFormat M main).function? g = (withRegister M main).function? g := by
  have hne : g ≠ (withRegister M main).nextGlobal := by
    have h₁ : (withHandler M).nextGlobal ≤ (withRegister M main).nextGlobal :=
      le_withSymbol_nextGlobal _ _ _ _
    have h₂ := hM.withHandler_nextGlobal
    omega
  rw [withFormat, function?_geti8StrVal, withPrintf, function?_withSymbol_ne hne]

/-- **An old function keeps its identity**: its blocks count, and `main` registers the handler first. -/
theorem function?_old {g : ℕ} (hg : g < M.nextGlobal) :
    (instrumented M main (counter M)).function? g = (M.function? g).map fun F =>
      countFunction (counter M)
        (if F.id = main.id then registerAtFront (atexitId M) (handlerId M) F else F) := by
  have hreport : (withReport M main).function? g = (M.function? g).map fun F =>
      if F.id = main.id then registerAtFront (atexitId M) (handlerId M) F else F := by
    have hne : g ≠ (withCounter M).nextGlobal := by
      have : (withCounter M).nextGlobal = M.nextGlobal + 1 := rfl
      omega
    have hcounter : (withCounter M).function? g = M.function? g := rfl
    rw [withReport, Module.function?_modifyFunction (appendReport_id _ _ _),
      hM.function?_withFormat (by omega), hM.function?_withRegister (by omega), withHandler,
      function?_withSymbol_ne hne, hcounter]
    cases hF : M.function? g with
    | none => rfl
    | some F =>
      have hid := (Module.mem_of_function? hF).2
      have hh := hM.handlerId_eq
      simp only [Option.map_some]
      congr 1
      rw [if_neg]
      split <;> simp [hid] <;> omega
  rw [function?_instrumented, hreport]
  cases hF : M.function? g with
  | none => rfl
  | some F =>
    have hname : F.name ≠ atexitCallStr := by
      intro hn
      exact hM.noHandler (hn ▸ Module.name_mem_names (Module.mem_of_function? hF).1)
    simp only [Option.map_some]
    refine congrArg some ?_
    rw [countUnlessHandler, if_neg]
    split <;> simpa using hname

theorem handlerDecl_eq :
    ((withCounter M).addFunction atexitCallTy .external atexitCallStr ⟨[], []⟩).2 = handlerDecl M := by
  rw [Module.addFunction, Module.uniqueName_of_notMem
    (Module.getNamedValue_eq_none_iff.mp hM.handler_free)]
  rfl

theorem handlerDecl_id : (handlerDecl M).id = handlerId M := hM.handlerId_eq.symm

theorem handlerDecl_id_ne : (handlerDecl M).id ≠ main.id := by
  have hlt := hM.main_lt
  have hid : (handlerDecl M).id = M.nextGlobal + 1 := rfl
  omega

/-- **The handler** is the reporting block and nothing else. -/
theorem function?_handler :
    (instrumented M main (counter M)).function? (handlerId M) = some (handlerFn M main) := by
  have hid := hM.handlerId_eq
  have hnew : ∀ F ∈ (withCounter M).functions, F.id ≠ (withCounter M).nextGlobal := by
    intro F hF
    have h₁ : F.id < M.nextGlobal := hM.wf.function_lt hF
    have h₂ : (withCounter M).nextGlobal = M.nextGlobal + 1 := rfl
    omega
  have hdecl : (withHandler M).function? (handlerId M) = some (handlerDecl M) := by
    rw [hM.withHandler_eq, hid, ← hM.handlerDecl_eq]
    exact Module.function?_addFunction_self hnew
  rw [function?_instrumented, withReport, Module.function?_modifyFunction (appendReport_id _ _ _),
    hM.function?_withFormat (by omega), hM.function?_withRegister (by omega), hdecl]
  simp only [Option.map_some]
  rw [if_neg hM.handlerDecl_id_ne, if_pos hM.handlerDecl_id, ← handlerFn, countUnlessHandler,
    if_pos (handlerFn_name M main)]

/-- Every other new function is a declaration. -/
theorem function?_other {g : ℕ} (hg : M.nextGlobal ≤ g) (hne : g ≠ handlerId M) {F : Function}
    (hF : (instrumented M main (counter M)).function? g = some F) : F.blocks = [] := by
  rw [function?_instrumented] at hF
  obtain ⟨F₁, hF₁, rfl⟩ := Option.map_eq_some_iff.mp hF
  obtain ⟨hmem, hid⟩ := Module.mem_of_function? hF₁
  rw [withReport_functions] at hmem
  obtain ⟨F₂, hF₂, rfl⟩ := List.mem_map.mp hmem
  have hid₂ : F₂.id = g := by
    split at hid <;> exact hid
  rw [if_neg (by omega)]
  have hB : F₂.blocks = [] := by
    rcases hM.mem_withPrintf hF₂ with ⟨G, hG, rfl⟩ | ⟨hB, -, -⟩
    · have hlt := hM.wf.function_lt hG
      have hidG : G.id = g := by
        split at hid₂
        · rwa [registerAtFront_id] at hid₂
        · exact hid₂
      omega
    · exact hB
  rw [countUnlessHandler]
  split
  · exact hB
  · simp [countFunction, hB, countBlocks]

/-! ### The variables and the names -/

omit hM in
/-- Edits of function bodies keep what a name finds, up to the edit. -/
theorem getNamedValue_instrumented (c : GlobalVariable) (n : String) :
    (instrumented M main c).getNamedValue n = ((withReport M main).getNamedValue n).map fun
      | .function F => .function (countUnlessHandler c F)
      | V => V := by
  have hfind : ((withReport M main).functions.map (countUnlessHandler c)).find? (·.name = n) =
      ((withReport M main).functions.find? (·.name = n)).map (countUnlessHandler c) := by
    rw [List.find?_map]
    congr 2
    funext F
    simp only [Function.comp_apply, countUnlessHandler]
    split <;> rfl
  rw [Module.getNamedValue_eq, Module.getNamedValue_eq]
  simp only [instrumented, hfind]
  cases (withReport M main).functions.find? (·.name = n) <;>
    cases (withReport M main).globals.find? (·.name = n) <;>
      cases (withReport M main).aliases.find? (·.name = n) <;>
        cases (withReport M main).ifuncs.find? (·.name = n) <;> simp

/-- In the result the name `bbCounter` finds the counter. -/
theorem getGlobalVariable_instrumented :
    (instrumented M main (counter M)).getGlobalVariable bbCounterStr = some (counter M) := by
  have h := hM.getGlobalVariable_counter
  rw [Module.getGlobalVariable] at h
  rw [Module.getGlobalVariable, getNamedValue_instrumented]
  cases hV : (withReport M main).getNamedValue bbCounterStr with
  | none => rw [hV] at h; cases h
  | some V =>
    rw [hV] at h
    rcases V with F | G | A | I
    · cases h
    · exact h
    · cases h
    · cases h

/-- In the result the name `setupAtExit` finds the handler. -/
theorem getFunction_instrumented :
    (instrumented M main (counter M)).getFunction atexitCallStr = some (handlerFn M main) := by
  have hfree := Module.getNamedValue_eq_none_iff.mp hM.handler_free
  have hdecl : (withHandler M).getNamedValue atexitCallStr = some (.function (handlerDecl M)) := by
    rw [hM.withHandler_eq, ← hM.handlerDecl_eq]
    exact Module.getNamedValue_addFunction_self hfree
  rw [Module.getFunction_eq_some, getNamedValue_instrumented,
    getNamedValue_withReport (by decide) (by decide) (by decide), hdecl]
  simp only [Option.map_some, GlobalValue.edit]
  rw [if_neg hM.handlerDecl_id_ne, if_pos hM.handlerDecl_id, ← handlerFn, countUnlessHandler,
    if_pos (handlerFn_name M main)]

omit hM in
variable (M main) in
/-- The pass adds two variables, the counter and the format string. -/
theorem instrumented_globals (c : GlobalVariable) : ∃ fmt : GlobalVariable,
    fmt.id = (withPrintf M main).nextGlobal ∧
      (instrumented M main c).globals = M.globals ++ [counter M, fmt] := by
  obtain ⟨fmt, hid, hfmt⟩ := geti8StrVal_globals (withPrintf M main) formatStr "fmt"
  have hcounter : (withCounter M).globals = M.globals ++ [counter M] := rfl
  refine ⟨fmt, hid, ?_⟩
  rw [instrumented_globals_eq, withReport, Module.modifyFunction_globals, withFormat, hfmt, withPrintf,
    withSymbol_globals, withRegister, Module.modifyFunction_globals, withAtexit, withSymbol_globals,
    withHandler, withSymbol_globals, hcounter, List.append_assoc, List.singleton_append]

theorem global?_counter :
    (instrumented M main (counter M)).global? (counter M).id = some (counter M) := by
  obtain ⟨fmt, -, hglobals⟩ := instrumented_globals M main (counter M)
  have hid : (counter M).id = M.nextGlobal := by rw [hM.counter_eq]
  have hnone : M.globals.find? (·.id = (counter M).id) = none := by
    refine List.find?_eq_none.mpr fun G hG => ?_
    have := hM.wf.global_lt hG
    simp only [decide_eq_true_eq]
    omega
  rw [Module.global?, hglobals, List.find?_append, hnone]
  simp

/-! ### The pass succeeds -/

theorem setupCond : SetupCond M main where
  mainFn := hM.mainFn
  handler := by
    intro V hV
    rw [hM.handler_free] at hV
    cases hV
  atexit := (okSymbol_congr (hM.withHandler_getNamedValue (by decide) (by decide))).mpr hM.atexit
  printf := hM.okPrintf
  front := by
    have hlt := hM.main_lt
    have hfn : (withAtexit M).function? main.id = some main := by
      have h₁ := hM.withHandler_nextGlobal
      have h₂ : (withCounter M).nextGlobal = M.nextGlobal + 1 := rfl
      rw [withAtexit, function?_withSymbol_ne (by omega), withHandler,
        function?_withSymbol_ne (by omega)]
      exact hM.wf.function?_of_mem hM.main_mem
    have hdef := hM.defined
    rw [checkFront, hfn, Option.map_some]
    cases hB : main.blocks with
    | nil => simp [Function.isDeclaration, hB] at hdef
    | cons B Bs =>
      have hwf := (hM.wf.functions main hM.main_mem).blocks B (by simp [hB])
      simp [hwf.insts_ne_nil]

theorem blockCond {F : Function} (hF : F ∈ (withReport M main).functions)
    (hname : F.name ≠ atexitCallStr) {B : BasicBlock} (hB : B ∈ F.blocks) :
    BlockCond (withReport M main) (counter M) B := by
  refine ⟨hM.getGlobalVariable_counter, rfl, ?_⟩
  rw [withReport_functions] at hF
  obtain ⟨F₁, hF₁, rfl⟩ := List.mem_map.mp hF
  rcases hM.mem_withPrintf hF₁ with ⟨G, hG, rfl⟩ | ⟨hnil, -, hh⟩
  · have hwf := hM.wf.functions G hG
    have hlt := hM.wf.function_lt hG
    have hid := hM.handlerId_eq
    have hne : (if G.id = main.id then registerAtFront (atexitId M) (handlerId M) G else G).id ≠
        handlerId M := by
      split
      · rw [registerAtFront_id]
        omega
      · omega
    rw [if_neg hne] at hB
    split at hB
    · rw [registerAtFront] at hB
      split at hB
      · exact (hwf.blocks B hB).getTerminator_isSome
      · rename_i B₀ Bs hBs
        rcases List.mem_cons.mp hB with rfl | hB
        · have h₀ := hwf.blocks B₀ (by simp [hBs])
          obtain ⟨body, t, hins, ht, -⟩ := h₀.terminator
          simp [BasicBlock.getTerminator, BasicBlock.pushFront, hins, List.getLast?_cons, ht]
        · exact (hwf.blocks B (by simp [hBs, hB])).getTerminator_isSome
    · exact (hwf.blocks B hB).getTerminator_isSome
  · by_cases hid : F₁.id = handlerId M
    · rw [if_pos hid] at hname
      exact absurd (hh hid) hname
    · rw [if_neg hid, hnil] at hB
      cases hB

/-- **On a ready module the pass succeeds**, with the counter that `setup` created. -/
theorem runOnModule : runOnModule M = .ok (instrumented M main (counter M)) :=
  runOnModule_eq hM.setupCond fun _ hF hname _ hB => hM.blockCond hF hname hB

/-- What the pass returns, and the number of the handler in it. -/
theorem result_eq {M' : Module} {H : Function} (hM' : CountBB.runOnModule M = .ok M')
    (hH : M'.getFunction atexitCallStr = some H) :
    M' = instrumented M main (counter M) ∧ H.id = handlerId M := by
  rw [hM.runOnModule, Except.ok.injEq] at hM'
  subst hM'
  rw [hM.getFunction_instrumented, Option.some.injEq] at hH
  subst hH
  exact ⟨rfl, hM.handlerDecl_id⟩

end Ready

/-! ### The blocks -/

/-- What the pass puts before the first instruction of the block `b` of the function `g`. -/
def frontInsts (M : Module) (main : Function) (g b : ℕ) : List Instruction :=
  if g = main.id ∧ main.blocks.head?.map BasicBlock.id = some b then
    [registerCall main.nextValue (atexitId M) (handlerId M)]
  else []

/-- The block `b` of the function `g`, split at its terminator, and the first identity the counting code
in it gets. -/
structure Counted (M : Module) (g b : ℕ) where
  fn : Function
  block : BasicBlock
  body : List Instruction
  term : Instruction
  first : ℕ
  fn_eq : M.function? g = some fn
  block_eq : fn.block? b = some block
  insts_eq : block.insts = body ++ [term]
  isTerminator : term.isTerminator = true
  plain : ∀ I ∈ body, I.isTerminator = false
  le_first : fn.nextValue ≤ first

/-- The instructions of the block after the pass. -/
def Counted.insts {M : Module} {g b : ℕ} (K : Counted M g b) (main : Function) :
    List Instruction :=
  frontInsts M main g b ++ K.body ++ countInsts K.first (counter M) ++ [K.term]

/-- `I` is an instruction of the function `g` of the module. -/
def IsOriginal (M : Module) (g : ℕ) (I : Instruction) : Prop :=
  ∃ F ∈ M.functions, F.id = g ∧ I ∈ F.insts

/-- The instructions of a block are instructions of the original module. -/
theorem Counted.isOriginal {M : Module} {g b : ℕ} (K : Counted M g b) {I : Instruction}
    (h : I ∈ K.body ++ [K.term]) : IsOriginal M g I := by
  obtain ⟨hmem, hid⟩ := Module.mem_of_function? K.fn_eq
  refine ⟨K.fn, hmem, hid, List.mem_flatMap.mpr ⟨K.block, List.mem_of_find?_eq_some K.block_eq, ?_⟩⟩
  rwa [K.insts_eq]

/-- The registration is what may stand before the instructions of a block. -/
theorem eq_of_mem_frontInsts {M : Module} {main : Function} {g b : ℕ} {I : Instruction}
    (h : I ∈ frontInsts M main g b) : I = registerCall main.nextValue (atexitId M) (handlerId M) := by
  rw [frontInsts] at h
  split at h
  · exact List.mem_singleton.mp h
  · cases h

theorem find?_countBlocks (c : GlobalVariable) (n : ℕ) (Bs : List BasicBlock) (b : ℕ) :
    ∃ m, n ≤ m ∧ (countBlocks c n Bs).find? (·.id = b) =
      (Bs.find? (·.id = b)).map (·.insertBeforeLast (countInsts m c)) := by
  induction Bs generalizing n with
  | nil => exact ⟨n, Nat.le_refl n, rfl⟩
  | cons B Bs ih =>
    by_cases hb : B.id = b
    · exact ⟨n, Nat.le_refl n, by simp [countBlocks, hb]⟩
    · obtain ⟨m, hm, hfind⟩ := ih (n + 3)
      refine ⟨m, by omega, ?_⟩
      simp [countBlocks, hb, hfind]

/-- A block of a function with the registration at its front. -/
theorem block?_registerAtFront (a h : ℕ) (F : Function) (b : ℕ) :
    (registerAtFront a h F).block? b = (F.block? b).map fun B =>
      if F.blocks.head?.map BasicBlock.id = some b then B.pushFront (registerCall F.nextValue a h)
      else B := by
  rw [registerAtFront]
  cases hB : F.blocks with
  | nil => simp [Function.block?, hB]
  | cons B Bs =>
    by_cases hb : B.id = b
    · simp [Function.block?, hB, hb]
    · simp [Function.block?, hB, hb]

theorem nextValue_registerAtFront (a h : ℕ) (F : Function) :
    F.nextValue ≤ (registerAtFront a h F).nextValue := by
  rw [registerAtFront]
  split
  · exact Nat.le_refl _
  · exact Nat.le_succ _

namespace Ready

variable {M : Module} {main : Function} (hM : Ready M main)
include hM

/-- The block `b` of an old function after the pass, with the front and the counting code named. -/
theorem block?_front {g : ℕ} (hg : g < M.nextGlobal) (b : ℕ) :
    ∀ F, M.function? g = some F → ∃ m, F.nextValue ≤ m ∧
      (instrumented M main (counter M)).block? g b = (F.block? b).map fun B =>
        { B with insts := frontInsts M main g b ++ B.insts }.insertBeforeLast
          (countInsts m (counter M)) := by
  intro F hF
  have hid := (Module.mem_of_function? hF).2
  rw [Module.block?, hM.function?_old hg, hF, Option.map_some, Option.bind_some]
  by_cases hmain : F.id = main.id
  · have hFm : F = main := by
      have := hM.wf.function?_of_mem hM.main_mem
      rw [← hmain, hid, hF] at this
      exact Option.some.inj this
    subst hFm
    rw [if_pos rfl]
    obtain ⟨m, hm, hfind⟩ := find?_countBlocks (counter M)
      (registerAtFront (atexitId M) (handlerId M) F).nextValue
      (registerAtFront (atexitId M) (handlerId M) F).blocks b
    refine ⟨m, Nat.le_trans (nextValue_registerAtFront _ _ F) hm, hfind.trans ?_⟩
    have hreg := block?_registerAtFront (atexitId M) (handlerId M) F b
    rw [Function.block?] at hreg
    rw [hreg, Option.map_map]
    refine congrFun (congrArg Option.map (funext fun B => ?_)) _
    rw [Function.comp_apply, frontInsts]
    by_cases hb : F.blocks.head?.map BasicBlock.id = some b
    · rw [if_pos hb, if_pos ⟨hid.symm, hb⟩]
      rfl
    · rw [if_neg hb, if_neg fun h => hb h.2]
      rfl
  · rw [if_neg hmain]
    obtain ⟨m, hm, hfind⟩ := find?_countBlocks (counter M) F.nextValue F.blocks b
    refine ⟨m, hm, hfind.trans ?_⟩
    have hfront : frontInsts M main g b = [] := if_neg fun h => hmain (hid.trans h.1)
    rw [hfront]
    rfl

/-- **A block of an old function**, after the pass. -/
theorem block?_counted {g b : ℕ} (hg : g < M.nextGlobal) {B : BasicBlock}
    (hB : M.block? g b = some B) :
    ∃ K : Counted M g b, K.block = B ∧
      (instrumented M main (counter M)).block? g b = some { B with insts := K.insts main } := by
  obtain ⟨F, hF, hB⟩ := Option.bind_eq_some_iff.mp hB
  obtain ⟨m, hm, hblock⟩ := hM.block?_front hg b F hF
  have hwf := (hM.wf.functions F (Module.mem_of_function? hF).1).blocks B
    (List.mem_of_find?_eq_some hB)
  obtain ⟨body, t, hins, ht, hbody⟩ := hwf.terminator
  refine ⟨⟨F, B, body, t, m, hF, hB, hins, ht, hbody, hm⟩, rfl, ?_⟩
  rw [hblock, hB, Option.map_some]
  simp [BasicBlock.insertBeforeLast, Counted.insts, hins, ← List.append_assoc]

/-- Every block of the result outside the handler is a counted one. -/
theorem block?_inv {g b : ℕ} (hg : g ≠ handlerId M) {B' : BasicBlock}
    (hB' : (instrumented M main (counter M)).block? g b = some B') :
    ∃ K : Counted M g b, B'.insts = K.insts main := by
  obtain ⟨F', hF', hfind⟩ := Option.bind_eq_some_iff.mp hB'
  by_cases hlt : g < M.nextGlobal
  · cases hF : M.function? g with
    | none => rw [hM.function?_old hlt, hF] at hF'; cases hF'
    | some F =>
      obtain ⟨m, -, hblock⟩ := hM.block?_front hlt b F hF
      cases hB : F.block? b with
      | none => rw [hblock, hB] at hB'; cases hB'
      | some B =>
        obtain ⟨K, -, hK⟩ := hM.block?_counted hlt (b := b) (B := B)
          (by rw [Module.block?, hF, Option.bind_some, hB])
        rw [hK, Option.some.injEq] at hB'
        exact ⟨K, by rw [← hB']⟩
  · have hnil := hM.function?_other (by omega) hg hF'
    rw [Function.block?, hnil] at hfind
    cases hfind

/-- The one block of the handler. -/
theorem block?_handler {b : ℕ} {B' : BasicBlock}
    (hB' : (instrumented M main (counter M)).block? (handlerId M) b = some B') :
    B' = reportBlock 0 "entry" 0 (counter M) (printfId M main) (format M main) := by
  rw [Module.block?, hM.function?_handler, Option.bind_some, Function.block?] at hB'
  exact (List.mem_singleton.mp (List.mem_of_find?_eq_some hB'))

end Ready

end SnippetsLlvm.CountBB
