import SnippetsLlvm.CountBB.Edits
import SnippetsLlvm.CountBB.Layout

/-!
# The stages of `count-bb` on any well-formed module

The module on which `count-bb` runs may have the names it uses already.  This file follows the stages of
`setup` through any symbol table.

* `withReport_wellFormed` — **what `setup` leaves is well-formed** whenever `setup` gets there;
* `setupCond_iff` — it gets there when `main` is defined and the three functions it asks for are absent or
  have the types it asks for;
* `function?_withReport_main` — the registration stands at the front of `main`;
* `getGlobalVariable_of_taken` — the variable that a name `bbCounter` finds afterwards that was taken.
-/

namespace SnippetsLlvm.CountBB

open SnippetsLlvm.Ir

/-! ### Symbols -/

theorem extends_withSymbol {M : Module} {name : String} {ty : FunctionType} {attrs : AttributeList} :
    M.Extends (withSymbol M name ty attrs) := by
  rw [withSymbol]
  split
  · exact ⟨fun V hV => ⟨V, hV, rfl⟩, fun F hF _ => ⟨F, hF, rfl, rfl, rfl⟩⟩
  · exact extends_addFunction

theorem withSymbol_wellFormed {M : Module} (hM : M.WellFormed) {name : String} {ty : FunctionType}
    {attrs : AttributeList} (hattrs : attrs.Fits ty.ret false) :
    (withSymbol M name ty attrs).WellFormed := by
  rw [withSymbol]
  split
  · exact hM
  · exact hM.addFunction hattrs

/-- Two globals of a well-formed module with one identity are one. -/
theorem eq_of_id {M : Module} (hM : M.WellFormed) {V W : GlobalValue} (hV : V ∈ M.globalValues)
    (hW : W ∈ M.globalValues) (h : V.id = W.id) : V = W :=
  List.inj_on_of_nodup_map hM.ids hV hW h

theorem Callable.extend {M N : Module} {g : ℕ} {ty : FunctionType} (h : Callable M g ty)
    (hext : M.Extends N) : Callable N g ty where
  ref := by
    obtain ⟨V, hV, href⟩ := h.ref
    obtain ⟨W, hW, href'⟩ := hext.refs V hV
    exact ⟨W, hW, href'.trans href⟩
  plain F hF hid := by
    by_contra hne
    obtain ⟨G, hG, hid', -, hintr⟩ := hext.intrinsics F hF (Option.isSome_iff_ne_none.mpr hne)
    exact hne (hintr.symm.trans (h.plain G hG (hid'.trans hid)))

/-- The function under a callable identity has the type of the calls. -/
theorem Callable.type_eq {M : Module} (hM : M.WellFormed) {g : ℕ} {ty : FunctionType}
    (h : Callable M g ty) {F : Function} (hF : F ∈ M.functions) (hid : F.id = g) : F.type = ty := by
  obtain ⟨V, hV, href⟩ := h.ref
  have hVF : V = .function F := by
    refine eq_of_id hM hV (by simp [Module.globalValues, hF]) ?_
    rw [GlobalValue.ref, Constant.global.injEq] at href
    exact href.1.trans hid.symm
  subst hVF
  rw [GlobalValue.ref, Constant.global.injEq] at href
  have hptr : F.type.ptrTy = ty.ptrTy := href.2.2
  rw [FunctionType.ptrTy, FunctionType.ptrTy, Ty.pointer.injEq] at hptr
  exact FunctionType.toTy_inj.mp hptr.1

/-- **What `getOrInsertFunction` hands out can be called**, if it is a function of the type asked for. -/
theorem callable_symbol {M : Module} (hM : M.WellFormed) {name : String} {ty : FunctionType}
    {attrs : AttributeList} (hok : OkSymbol M name ty) (hname : ¬ "llvm.".toList <+: name.toList) :
    Callable (withSymbol M name ty attrs) (symbolId M name) ty := by
  cases hV : M.getNamedValue name with
  | none =>
    have hfree := Module.getNamedValue_eq_none_iff.mp hV
    rw [withSymbol, symbolId, hV]
    refine ⟨⟨.function (M.addFunction ty .external name attrs).2, ?_, rfl⟩, fun F hF hid => ?_⟩
    · exact addFunction_perm.mem_iff.mpr List.mem_cons_self
    · rcases List.mem_append.mp hF with hF | hF
      · exact absurd hid (Nat.ne_of_lt (hM.function_lt hF))
      · rw [List.mem_singleton.mp hF]
  | some V =>
    obtain ⟨F, rfl, rfl⟩ := hok V hV
    have hmem := Module.mem_of_getNamedValue hV
    rw [withSymbol, symbolId, hV]
    refine ⟨⟨.function F, hmem, rfl⟩, fun G hG hid => ?_⟩
    have hGF : GlobalValue.function G = .function F :=
      eq_of_id hM (by simp [Module.globalValues, hG]) hmem hid
    rw [GlobalValue.function.injEq] at hGF
    subst hGF
    by_contra hne
    have hpre := hM.intrinsics G hG (Option.isSome_iff_ne_none.mpr hne)
    have hGname : G.name = name := Module.name_of_getNamedValue hV
    exact hname (hGname ▸ hpre)

/-! ### The headers the rewritings keep -/

theorem keepsHeader_registerAtFront (a h : ℕ) : KeepsHeader (registerAtFront a h) := by
  constructor <;> intro F <;> rw [registerAtFront] <;> split <;> rfl

theorem keepsHeader_appendReport (c : GlobalVariable) (p : ℕ) (fmt : Constant) :
    KeepsHeader (appendReport c p fmt) := by
  constructor <;> intro F <;> rfl

theorem keepsHeader_countUnlessHandler (c : GlobalVariable) : KeepsHeader (countUnlessHandler c) := by
  constructor <;> intro F <;> rw [countUnlessHandler] <;> split <;> rfl

/-! ### The stages keep the module well-formed -/

section Stages

variable {M : Module} {main : Function} (hM : M.WellFormed) (hs : SetupCond M main)
include hM

theorem withCounter_wellFormed : (withCounter M).WellFormed :=
  hM.addGlobalVariable fun c hc => by
    obtain rfl : Constant.int 64 0 = c := Option.some.inj hc
    exact ⟨rfl, fun g hg => nomatch hg⟩

theorem withHandler_wellFormed : (withHandler M).WellFormed :=
  withSymbol_wellFormed (withCounter_wellFormed hM) (by decide)

theorem withAtexit_wellFormed : (withAtexit M).WellFormed :=
  withSymbol_wellFormed (withHandler_wellFormed hM) (by decide)

omit hM in
theorem extends_withAtexit : (withCounter M).Extends (withAtexit M) :=
  extends_withSymbol.trans extends_withSymbol

include hs

theorem callable_handler : Callable (withAtexit M) (handlerId M) atexitCallTy :=
  (callable_symbol (withCounter_wellFormed hM) hs.handler (by decide)).extend extends_withSymbol

theorem callable_atexit : Callable (withAtexit M) (atexitId M) atexitTy :=
  callable_symbol (withHandler_wellFormed hM) hs.atexit (by decide)

omit hM hs in
theorem extends_withRegister : (withAtexit M).Extends (withRegister M main) :=
  extends_mapFunctions ((keepsHeader_registerAtFront _ _).ite main.id)

theorem withRegister_wellFormed : (withRegister M main).WellFormed := by
  refine (mapFunctions_wellFormed_iff ((keepsHeader_registerAtFront _ _).ite main.id)
    (withAtexit_wellFormed hM)).mpr fun F hF => ?_
  have hwf := (withAtexit_wellFormed hM).functions F hF
  split
  · exact registerAtFront_wellFormed hwf (callable_atexit hM hs) (callable_handler hM hs)
  · exact hwf

theorem withPrintf_wellFormed : (withPrintf M main).WellFormed :=
  withSymbol_wellFormed (withRegister_wellFormed hM hs) (by decide)

theorem withFormat_wellFormed : (withFormat M main).WellFormed :=
  (withPrintf_wellFormed hM hs).addGlobalVariable fun c hc => by
    obtain rfl : Constant.dataArray _ _ = c := Option.some.inj hc
    exact ⟨rfl, fun g hg => nomatch hg⟩

omit hM hs in
theorem extends_withFormat : (withRegister M main).Extends (withFormat M main) :=
  extends_withSymbol.trans extends_addGlobalVariable

omit hM hs in
/-- The counter is there when the reporting block is built. -/
theorem counter_ref : ∃ V ∈ (withFormat M main).globalValues, V.ref = (counter M).ref := by
  have hmem : GlobalValue.variable (counter M) ∈ (withCounter M).globalValues :=
    addGlobalVariable_perm.mem_iff.mpr List.mem_cons_self
  have hext : (withCounter M).Extends (withFormat M main) :=
    extends_withAtexit.trans (extends_withRegister.trans extends_withFormat)
  exact hext.refs _ hmem

omit hM hs in
theorem globalsIn_format : (Value.const (format M main)).GlobalsIn (withFormat M main) := by
  refine ⟨fun g k ty heq => (nomatch heq), fun g hg => ?_⟩
  have hmem : GlobalValue.variable ((withPrintf M main).addGlobalVariable
      (.array (cString formatStr).length (.integer 8)) true .internal
      (some (.dataArray (.array (cString formatStr).length (.integer 8)) (cString formatStr))) "fmt").2 ∈
      (withFormat M main).globalValues := addGlobalVariable_perm.mem_iff.mpr List.mem_cons_self
  simp only [format, geti8StrVal, Value.mentions, Constant.mentions, Constant.anyMentions,
    GlobalVariable.ref, Bool.or_false, beq_iff_eq] at hg
  exact ⟨_, hmem, hg⟩

/-- **What `setup` leaves is well-formed.** -/
theorem withReport_wellFormed : (withReport M main).WellFormed := by
  have hwf := withFormat_wellFormed hM hs
  have hhandler : Callable (withFormat M main) (handlerId M) atexitCallTy :=
    (callable_handler hM hs).extend (extends_withRegister.trans extends_withFormat)
  have hprintf : Callable (withFormat M main) (printfId M main) printfTy :=
    (callable_symbol (withRegister_wellFormed hM hs) hs.printf (by decide)).extend
      extends_addGlobalVariable
  refine (mapFunctions_wellFormed_iff ((keepsHeader_appendReport _ _ _).ite (handlerId M)) hwf).mpr
    fun F hF => ?_
  split
  · rename_i hid
    have hret : F.type.ret = .void := by rw [hhandler.type_eq hwf hF hid]; rfl
    exact appendReport_wellFormed (hwf.functions F hF) hret counter_ref hprintf globalsIn_format rfl
  · exact hwf.functions F hF

/-! ### The front of `main` -/

theorem handlerId_ne_main : handlerId M ≠ main.id := by
  have hmem := Module.mem_functions_of_getFunction hs.mainFn
  have hlt := hM.function_lt hmem
  intro hid
  rw [handlerId, symbolId] at hid
  cases hV : (withCounter M).getNamedValue atexitCallStr with
  | none =>
    have hnext : (withCounter M).nextGlobal = M.nextGlobal + 1 := rfl
    simp only [hV] at hid
    omega
  | some V =>
    simp only [hV] at hid
    have hname := Module.name_of_getNamedValue hV
    have hmain : GlobalValue.function main ∈ (withCounter M).globalValues :=
      addGlobalVariable_perm.mem_iff.mpr (List.mem_cons_of_mem _ (by simp [Module.globalValues, hmem]))
    rw [eq_of_id (withCounter_wellFormed hM) (Module.mem_of_getNamedValue hV) hmain hid] at hname
    have hmainName : main.name = "main" := Module.name_of_getFunction hs.mainFn
    have : main.name = atexitCallStr := hname
    rw [hmainName] at this
    exact absurd this (by decide)

omit hs in
/-- `main` before the registration. -/
theorem function?_withAtexit_main (hmain : M.getFunction "main" = some main) :
    (withAtexit M).function? main.id = some main := by
  have hmem := Module.mem_functions_of_getFunction hmain
  have hlt := hM.function_lt hmem
  have h₁ : (withCounter M).nextGlobal = M.nextGlobal + 1 := rfl
  have h₂ : (withCounter M).nextGlobal ≤ (withHandler M).nextGlobal := le_withSymbol_nextGlobal _ _ _ _
  rw [withAtexit, function?_withSymbol_ne (by omega), withHandler, function?_withSymbol_ne (by omega)]
  exact hM.function?_of_mem hmem

/-- **The registration stands at the front of `main`**, and nothing else has changed there. -/
theorem function?_withReport_main : (withReport M main).function? main.id =
    some (registerAtFront (atexitId M) (handlerId M) main) := by
  have hlt := hM.function_lt (Module.mem_functions_of_getFunction hs.mainFn)
  have h₁ : (withCounter M).nextGlobal = M.nextGlobal + 1 := rfl
  have h₂ : (withCounter M).nextGlobal ≤ (withHandler M).nextGlobal := le_withSymbol_nextGlobal _ _ _ _
  have h₃ : (withHandler M).nextGlobal ≤ (withRegister M main).nextGlobal :=
    le_withSymbol_nextGlobal _ _ _ _
  rw [withReport, Module.function?_modifyFunction (appendReport_id _ _ _), withFormat,
    function?_geti8StrVal, withPrintf, function?_withSymbol_ne (by omega), withRegister,
    Module.function?_modifyFunction (registerAtFront_id _ _), function?_withAtexit_main hM hs.mainFn]
  simp [(handlerId_ne_main hM hs).symm]

end Stages

/-! ### The variable the name `bbCounter` finds -/

section Lookup

variable {M : Module} {main : Function}

/-- With the name taken, it finds what the name found before. -/
theorem getGlobalVariable_of_taken (h : bbCounterStr ∈ M.names) :
    (withReport M main).getGlobalVariable bbCounterStr = M.getGlobalVariable bbCounterStr := by
  have hne : (M.uniqueName "bbCounter").1 ≠ bbCounterStr := fun heq =>
    M.uniqueName_notMem "bbCounter" (heq ▸ h)
  rw [getGlobalVariable_withReport, Module.getGlobalVariable, withCounter,
    Module.getNamedValue_addGlobalVariable_ne hne, ← Module.getGlobalVariable]

theorem mem_of_getGlobalVariable {n : String} {c : GlobalVariable} (h : M.getGlobalVariable n = some c) :
    c ∈ M.globals ∧ c.name = n ∧ c.linkage.isLocal = false ∧ M.getNamedValue n = some (.variable c) := by
  rw [Module.getGlobalVariable] at h
  split at h
  · rename_i G hG
    split at h
    · cases h
    · rename_i hlocal
      cases h
      have hmem := Module.mem_of_getNamedValue hG
      exact ⟨by simpa [Module.globalValues] using hmem, Module.name_of_getNamedValue hG,
        by simpa using hlocal, hG⟩
  · cases h

/-- The name `bbCounter` is free, or finds a 64-bit variable that is not local.  Whether it is constant is not asked. -/
def CounterFound (M : Module) : Prop :=
  ∀ V, M.getNamedValue bbCounterStr = some V →
    ∃ G, V = .variable G ∧ G.linkage.isLocal = false ∧ G.valueType = .i64

theorem counterFound_iff :
    (∃ c, (withReport M main).getGlobalVariable bbCounterStr = some c ∧ c.valueType = .i64) ↔
      CounterFound M := by
  by_cases h : bbCounterStr ∈ M.names
  · rw [getGlobalVariable_of_taken h]
    constructor
    · rintro ⟨c, hc, hty⟩ V hV
      obtain ⟨-, -, hlocal, hnamed⟩ := mem_of_getGlobalVariable hc
      rw [hV, Option.some.injEq] at hnamed
      exact ⟨c, hnamed, hlocal, hty⟩
    · intro hfound
      obtain ⟨V, hV⟩ := Option.ne_none_iff_exists'.mp
        (fun hnone => Module.getNamedValue_eq_none_iff.mp hnone h)
      obtain ⟨G, rfl, hlocal, hty⟩ := hfound V hV
      refine ⟨G, ?_, hty⟩
      rw [Module.getGlobalVariable, hV]
      simp [hlocal]
  · refine ⟨fun _ V hV => ?_, fun _ => ⟨_, getGlobalVariable_of_free h, rfl⟩⟩
    exact absurd (Module.mem_names_of_getNamedValue hV) h

end Lookup

/-! ### When `setup` gets there -/

section Conditions

variable {M : Module} {main : Function} (hM : M.WellFormed)

theorem getNamedValue_withCounter {n : String} (h : ¬ bbCounterStr.toList <+: n.toList) :
    (withCounter M).getNamedValue n = M.getNamedValue n :=
  Module.getNamedValue_addGlobalVariable_ne (uniqueName_ne h)

theorem okSymbol_handler_iff :
    OkSymbol (withCounter M) atexitCallStr atexitCallTy ↔ OkSymbol M atexitCallStr atexitCallTy :=
  okSymbol_congr (getNamedValue_withCounter (by decide))

theorem okSymbol_atexit_iff : OkSymbol (withHandler M) "atexit" atexitTy ↔ OkSymbol M "atexit" atexitTy :=
  okSymbol_congr (by
    rw [withHandler, getNamedValue_withSymbol_ne (by decide), getNamedValue_withCounter (by decide)])

theorem okSymbol_printf_iff :
    OkSymbol (withRegister M main) "printf" printfTy ↔ OkSymbol M "printf" printfTy := by
  have hlookup : (withRegister M main).getNamedValue "printf" = (M.getNamedValue "printf").map
      (GlobalValue.edit main.id (registerAtFront (atexitId M) (handlerId M))) := by
    rw [withRegister, Module.getNamedValue_modifyFunction (registerAtFront_name _ _), withAtexit,
      getNamedValue_withSymbol_ne (by decide), withHandler, getNamedValue_withSymbol_ne (by decide),
      getNamedValue_withCounter (by decide)]
  have hedit : ∀ F : Function, (if F.id = main.id then registerAtFront (atexitId M) (handlerId M) F
      else F).type = F.type := by
    intro F
    split
    · exact registerAtFront_type _ _ F
    · rfl
  constructor
  · intro h V hV
    obtain ⟨F, hF, hty⟩ := h _ (by rw [hlookup, hV]; rfl)
    cases V with
    | function G =>
      cases hF
      exact ⟨G, rfl, (hedit G).symm.trans hty⟩
    | _ => cases hF
  · intro h V hV
    rw [hlookup] at hV
    obtain ⟨W, hW, rfl⟩ := Option.map_eq_some_iff.mp hV
    obtain ⟨F, rfl, hty⟩ := h W hW
    exact ⟨_, rfl, (hedit F).trans hty⟩

include hM

theorem checkFront_withAtexit_iff (hmain : M.getFunction "main" = some main) :
    checkFront (withAtexit M) main.id = .ok () ↔ main.isDeclaration = false := by
  rw [checkFront, function?_withAtexit_main hM hmain, Option.map_some]
  cases hB : main.blocks with
  | nil => simp [Function.isDeclaration, hB]
  | cons B Bs =>
    have hwf := (hM.functions main (Module.mem_functions_of_getFunction hmain)).blocks B (by simp [hB])
    simp [Function.isDeclaration, hB, hwf.insts_ne_nil]

/-- **When `setup` gets there**: `main` is defined, and `setupAtExit`, `atexit` and `printf` are free names or
functions of the types it asks for. -/
theorem setupCond_iff (hmain : M.getFunction "main" = some main) :
    SetupCond M main ↔ main.isDeclaration = false ∧ OkSymbol M atexitCallStr atexitCallTy ∧
      OkSymbol M "atexit" atexitTy ∧ OkSymbol M "printf" printfTy := by
  constructor
  · intro h
    exact ⟨(checkFront_withAtexit_iff hM hmain).mp h.front, okSymbol_handler_iff.mp h.handler,
      okSymbol_atexit_iff.mp h.atexit, okSymbol_printf_iff.mp h.printf⟩
  · rintro ⟨hdef, hhandler, hatexit, hprintf⟩
    exact ⟨hmain, okSymbol_handler_iff.mpr hhandler, okSymbol_atexit_iff.mpr hatexit,
      (checkFront_withAtexit_iff hM hmain).mpr hdef, okSymbol_printf_iff.mpr hprintf⟩

end Conditions

end SnippetsLlvm.CountBB
