import SnippetsLlvm.CountBB.Added
import SnippetsLlvm.Dump.DumpConsts
import SnippetsLlvm.Dump.DumpModule
import SnippetsLlvm.MyBase.Calls
import SnippetsLlvm.Pipeline.Analyses

/-!
# The calls and the dumps of a counted module

What the tools say of a call depends on the function its callee operand names, and `count-bb` rewrites functions
and declares new ones.  It keeps the identity, the name and the type of each function, so that every call of
the source still has the callee it had; the calls it adds are direct.

* `getCalledFunction_counted` — the callee of a call of the source, after the pass;
* `callees_counted` — **the call classifiers and the assertion call sites are what they were**;
* `dumps_counted` — **each of the two dumps gets through the result exactly when it gets through the source**.
-/

namespace SnippetsLlvm.Pipeline

open SnippetsLlvm.Ir SnippetsLlvm.Library SnippetsLlvm.CountBB SnippetsLlvm.MyBase

/-! ### The instructions of a counted function -/

/-- The instructions `count-bb` adds to functions of the source. -/
def IsAdded (M : Module) (I : Instruction) : Prop :=
  (∃ n, I ∈ countInsts n (counter M)) ∨ ∃ n, I = registerCall n (atexitId M) (handlerId M)

theorem countedFn_id (M : Module) (main F : Function) : (countedFn M main F).id = F.id := by
  rw [countedFn]
  split
  · exact registerAtFront_id _ _ F
  · rfl

theorem countedFn_type (M : Module) (main F : Function) : (countedFn M main F).type = F.type := by
  rw [countedFn]
  split
  · exact registerAtFront_type _ _ F
  · rfl

theorem countedFn_intrinsic (M : Module) (main F : Function) :
    (countedFn M main F).intrinsic = F.intrinsic := by
  rw [countedFn]
  split
  · exact (keepsHeader_registerAtFront _ _).intrinsic F
  · rfl

theorem filter_countBlocks {c : GlobalVariable} {p : Instruction → Bool}
    (hp : ∀ n, ∀ I ∈ countInsts n c, p I = false) (n : ℕ) (Bs : List BasicBlock) :
    (countBlocks c n Bs).flatMap (fun B => B.insts.filter p) = Bs.flatMap fun B => B.insts.filter p := by
  induction Bs generalizing n with
  | nil => rfl
  | cons B Bs ih => rw [countBlocks, List.flatMap_cons, List.flatMap_cons, filter_insertBeforeLast (hp n), ih]

theorem filter_registerAtFront {a h : ℕ} {p : Instruction → Bool} (hp : ∀ n, p (registerCall n a h) = false)
    (F : Function) : (registerAtFront a h F).insts.filter p = F.insts.filter p := by
  rw [registerAtFront]
  split
  · rfl
  · rename_i B Bs hblocks
    rw [Function.insts, Function.insts, hblocks, List.flatMap_cons, List.flatMap_cons, List.filter_append,
      List.filter_append, BasicBlock.pushFront, List.filter_cons_of_neg]
    rw [hp]
    simp

/-- **What is asked of no added instruction is answered as before.** -/
theorem filter_countedFn {M : Module} {main : Function} {p : Instruction → Bool}
    (hp : ∀ I, IsAdded M I → p I = false) (F : Function) :
    (countedFn M main F).insts.filter p = F.insts.filter p := by
  have hcount : ∀ G, (countFunction (counter M) G).insts.filter p = G.insts.filter p := by
    intro G
    rw [Function.insts, Function.insts, List.filter_flatMap, List.filter_flatMap]
    exact filter_countBlocks (fun n I hI => hp I (.inl ⟨n, hI⟩)) G.nextValue G.blocks
  rw [countedFn, hcount]
  split
  · exact filter_registerAtFront (fun n => hp _ (.inr ⟨n, rfl⟩)) F
  · rfl

/-- **What holds of every added instruction** holds of the counted function when it holds of the source. -/
theorem forall_countedFn {M : Module} {main : Function} {P : Instruction → Prop} (hP : ∀ I, IsAdded M I → P I)
    (F : Function) : (∀ I ∈ (countedFn M main F).insts, P I) ↔ ∀ I ∈ F.insts, P I := by
  classical
  have hfilter : (countedFn M main F).insts.filter (fun I => decide ¬P I) = F.insts.filter fun I => decide ¬P I :=
    filter_countedFn (fun I hI => by simp [hP I hI]) F
  have hnil : ∀ is : List Instruction, (∀ I ∈ is, P I) ↔ is.filter (fun I => decide ¬P I) = [] := by
    intro is
    rw [List.filter_eq_nil_iff]
    simp
  rw [hnil, hnil, hfilter]

/-! ### The functions that are called -/

/-- A function of the module has this identity, name and type. -/
def Named (M : Module) (g : ℕ) (name : String) (ty : FunctionType) : Prop :=
  ∃ F ∈ M.functions, F.id = g ∧ F.name = name ∧ F.type = ty

/-- What `getOrInsertFunction` hands out has the name and the type that were asked for. -/
theorem named_symbol {M : Module} {name : String} {ty : FunctionType} {attrs : AttributeList}
    (hok : OkSymbol M name ty) : Named (withSymbol M name ty attrs) (symbolId M name) name ty := by
  cases hV : M.getNamedValue name with
  | none =>
    have hfree := Module.uniqueName_of_notMem (Module.getNamedValue_eq_none_iff.mp hV)
    rw [withSymbol, symbolId, hV]
    refine ⟨(M.addFunction ty .external name attrs).2, List.mem_append_right _ (List.mem_singleton_self _), rfl, ?_,
      rfl⟩
    show (M.uniqueName name).1 = name
    rw [hfree]
  | some V =>
    obtain ⟨F, rfl, hty⟩ := hok V hV
    have hF := Module.getFunction_eq_some.mpr hV
    rw [withSymbol, symbolId, hV]
    exact ⟨F, Module.mem_functions_of_getFunction hF, rfl, Module.name_of_getFunction hF, hty⟩

theorem Named.map {M N : Module} {g : ℕ} {name : String} {ty : FunctionType} {f : Function → Function}
    (h : Named M g name ty) (hf : KeepsHeader f) (hN : N.functions = M.functions.map f) : Named N g name ty := by
  obtain ⟨F, hF, hid, hname, hty⟩ := h
  refine ⟨f F, ?_, ?_, ?_, ?_⟩
  · rw [hN]
    exact List.mem_map_of_mem hF
  · rw [hf.id, hid]
  · rw [hf.name, hname]
  · rw [hf.type, hty]

section Counted

variable {M : Module} {main : Function} (hM : Ready M main)

theorem Named.instrumented {g : ℕ} {name : String} {ty : FunctionType}
    (h : Named (withPrintf M main) g name ty) : Named (instrumented M main (counter M)) g name ty := by
  have hreport : Named (withReport M main) g name ty :=
    h.map ((keepsHeader_appendReport (counter M) (printfId M main) (CountBB.format M main)).ite (handlerId M))
      (withReport_functions M main)
  exact hreport.map (keepsHeader_countUnlessHandler _) (instrumented_functions M main (counter M))

include hM

/-- **The function the registration calls.** -/
theorem named_atexit : Named (instrumented M main (counter M)) (atexitId M) "atexit" atexitTy := by
  have hatexit : Named (withAtexit M) (atexitId M) "atexit" atexitTy := named_symbol hM.setupCond.atexit
  have hregister : Named (withRegister M main) (atexitId M) "atexit" atexitTy :=
    hatexit.map ((keepsHeader_registerAtFront _ _).ite main.id) (withRegister_functions M main)
  obtain ⟨F, hF, h⟩ := hregister
  exact Named.instrumented ⟨F, functions_subset_withSymbol hF, h⟩

/-- **The function the handler calls.** -/
theorem named_printf : Named (instrumented M main (counter M)) (printfId M main) "printf" printfTy :=
  Named.instrumented (named_symbol hM.setupCond.printf)

theorem instrumented_functionIds : ((instrumented M main (counter M)).functions.map Function.id).Nodup := by
  have hids := (withReport_wellFormed hM.wf hM.setupCond).functionIds
  have hkeep : Function.id ∘ countUnlessHandler (counter M) = Function.id :=
    funext fun F => countUnlessHandler_id (counter M) F
  rw [instrumented_functions, List.map_map, hkeep]
  exact hids

/-- A call of a named function, with its type, is direct. -/
theorem getCalledFunction_named {g : ℕ} {name : String} {ty : FunctionType} {pty : Ty} {I : Instruction}
    (h : Named (instrumented M main (counter M)) g name ty)
    (hcallee : I.calledOperand = some (.const (.global g .function pty))) (hty : I.callType = some ty) :
    ∃ F, (instrumented M main (counter M)).getCalledFunction I = some F ∧ F.name = name := by
  obtain ⟨F, hF, rfl, hname, hFty⟩ := h
  have hfind : (instrumented M main (counter M)).function? F.id = some F :=
    Module.find?_of_mem_nodup (instrumented_functionIds hM) hF
  refine ⟨F, ?_, hname⟩
  rw [Module.getCalledFunction, hcallee, hty]
  show ((instrumented M main (counter M)).function? F.id).filter (fun F => some F.type = some ty) = some F
  rw [hfind, Option.filter_some, hFty]
  simp

/-- **The callee of a call of the source**, after the pass. -/
theorem getCalledFunction_counted {F : Function} (hF : F ∈ M.functions) {I : Instruction} (hI : I ∈ F.insts) :
    (instrumented M main (counter M)).getCalledFunction I =
      (M.getCalledFunction I).map (countedFn M main) := by
  rw [Module.getCalledFunction, Module.getCalledFunction]
  split
  · rename_i g ty hcallee
    -- a reference to a function that is there, hence to an old one
    have hop : Value.const (.global g .function ty) ∈ I.operands := by
      rw [Instruction.calledOperand] at hcallee
      split at hcallee
      · exact List.mem_of_getLast? hcallee
      · cases hcallee
    obtain ⟨V, hV, href⟩ := ((hM.wf.functions F hF).globalRefs I hI _ hop).1 g .function ty rfl
    rw [GlobalValue.ref, Constant.global.injEq] at href
    have hg : g < M.nextGlobal := href.1 ▸ hM.wf.idBound V hV
    have hold : (instrumented M main (counter M)).function? g = (M.function? g).map (countedFn M main) :=
      hM.function?_old hg
    rw [hold]
    cases M.function? g with
    | none => rfl
    | some G =>
      rw [Option.map_some, Option.filter_some, Option.filter_some, countedFn_type]
      split <;> rfl
  · rfl

/-- **What holds of every function of the result**: of each old one after the pass, of the handler, and of
declarations. -/
theorem forall_functions_instrumented {P : Function → Prop}
    (hdecl : ∀ F : Function, Bare atexitTy F ∨ Bare printfTy F → P F)
    (hhandler : P (handlerFn M main)) :
    (∀ F ∈ (instrumented M main (counter M)).functions, P F) ↔ ∀ F ∈ M.functions, P (countedFn M main F) := by
  obtain ⟨ds, hfunctions, hds⟩ := functions_instrumented hM
  rw [hfunctions, List.forall_mem_append, List.forall_mem_map, List.forall_mem_cons]
  constructor
  · intro h
    exact h.1
  · intro h
    exact ⟨h, hhandler, fun F hF => hdecl F (hds F hF)⟩

end Counted

theorem handlerFn_insts (M : Module) (main : Function) : (handlerFn M main).insts =
    [handlerLoad 0 (counter M), handlerCall 0 (counter M) (printfId M main) (CountBB.format M main),
      handlerRet 0] := rfl

/-! ### The classifiers -/

theorem isDeclaration_countedFn (M : Module) (main F : Function) :
    (countedFn M main F).isDeclaration = F.isDeclaration := (sameGraph_countedFn M main F).isDeclaration

theorem isFnMemOps_countedFn (M : Module) (main : Function) (callee : Option Function) :
    isFnMemOps (callee.map (countedFn M main)) = isFnMemOps callee := by
  cases callee with
  | none => rfl
  | some F =>
    have hname := (sameGraph_countedFn M main F).name
    simp only [Option.map_some, isFnMemOps, isFnMalloc, isFnFree, isFnMemcpy, isFnMemmove, isFnMemset,
      isDeclaration_countedFn, hname, countedFn_intrinsic]

section Counted

variable {M : Module} {main : Function} (hM : Ready M main)
include hM

theorem isAssertCall_counted {F : Function} (hF : F ∈ M.functions) {I : Instruction} (hI : I ∈ F.insts) :
    isAssertCall (instrumented M main (counter M)) I = isAssertCall M I := by
  rw [isAssertCall, isAssertCall, getCalledFunction_counted hM hF hI]
  cases M.getCalledFunction I with
  | none => rfl
  | some G =>
    have hname := (sameGraph_countedFn M main G).name
    simp only [Option.map_some, hname]

/-- A call of a function with another name is none of a failed assertion. -/
theorem isAssertCall_named {g : ℕ} {name : String} {ty : FunctionType} {pty : Ty} {I : Instruction}
    (h : Named (instrumented M main (counter M)) g name ty)
    (hcallee : I.calledOperand = some (.const (.global g .function pty))) (hty : I.callType = some ty)
    (hname : name ≠ "__assert_fail") : isAssertCall (instrumented M main (counter M)) I = false := by
  obtain ⟨F, hF, rfl⟩ := getCalledFunction_named hM h hcallee hty
  rw [isAssertCall, hF]
  split
  · exact decide_eq_false hname
  · rfl

/-- **The assertion call sites of a function of the source.** -/
theorem getAssertCallSite_countedFn {F : Function} (hF : F ∈ M.functions) :
    getAssertCallSite (instrumented M main (counter M)) (countedFn M main F) = getAssertCallSite M F := by
  have hadded : ∀ I, IsAdded M I → isAssertCall (instrumented M main (counter M)) I = false := by
    intro I hI
    rcases hI with ⟨n, hI⟩ | ⟨n, rfl⟩
    · simp only [countInsts, List.mem_cons, List.not_mem_nil, or_false] at hI
      rcases hI with rfl | rfl | rfl <;> rfl
    · exact isAssertCall_named hM (named_atexit hM) rfl rfl (by decide)
  rw [getAssertCallSite_eq, getAssertCallSite_eq, filter_countedFn hadded]
  exact List.filter_congr fun I hI => isAssertCall_counted hM hF hI

/-- The handler fails no assertion. -/
theorem getAssertCallSite_handlerFn :
    getAssertCallSite (instrumented M main (counter M)) (handlerFn M main) = [] := by
  rw [getAssertCallSite_eq, handlerFn_insts, List.filter_eq_nil_iff]
  intro I hI
  simp only [List.mem_cons, List.not_mem_nil, or_false] at hI
  rcases hI with rfl | rfl | rfl
  · simp [isAssertCall, handlerLoad]
  · rw [isAssertCall_named hM (named_printf hM) rfl rfl (by decide)]
    simp
  · simp [isAssertCall, handlerRet]

end Counted

/-- **`count-bb` leaves what the helpers on calls answer**: the classifiers say of every instruction of the source
what they said, the assertion call sites of every function are the same ones in the same order, and no function
that was added has any. -/
theorem callees_counted {M : Module} {main : Function} (hM : Ready M main) :
    ∃ M', runOnModule M = .ok M' ∧
      (∀ F ∈ M.functions, ∀ I ∈ F.insts, getCalleeFnType M' I = getCalleeFnType M I ∧
        isInlineAsmWithSideEffect M' I = isInlineAsmWithSideEffect M I ∧ isInstMemOps M' I = isInstMemOps M I) ∧
      (∀ F ∈ M.functions, ∃ F' ∈ M'.functions, F'.id = F.id ∧ getAssertCallSite M' F' = getAssertCallSite M F) ∧
      ∀ F' ∈ M'.functions, (∀ F ∈ M.functions, F.id ≠ F'.id) → getAssertCallSite M' F' = [] := by
  refine ⟨_, hM.runOnModule, fun F hF I hI => ?_, fun F hF => ?_, ?_⟩
  · have hcallee := getCalledFunction_counted hM hF hI
    refine ⟨?_, ?_, ?_⟩
    · rw [getCalleeFnType, getCalleeFnType, hcallee]
      cases M.getCalledFunction I with
      | none => rfl
      | some G => simp only [Option.map_some, countedFn_type]
    · rw [isInlineAsmWithSideEffect, isInlineAsmWithSideEffect, hcallee]
      cases M.getCalledFunction I with
      | none => rfl
      | some G => rfl
    · rw [isInstMemOps, isInstMemOps, hcallee, isFnMemOps_countedFn]
  · obtain ⟨ds, hfunctions, -⟩ := functions_instrumented hM
    refine ⟨countedFn M main F, ?_, countedFn_id M main F, getAssertCallSite_countedFn hM hF⟩
    rw [hfunctions]
    exact List.mem_append_left _ (List.mem_map_of_mem hF)
  · rw [forall_functions_instrumented hM]
    · intro F hF hnew
      exact absurd (countedFn_id M main F).symm (hnew F hF)
    · intro F hbare _
      rw [getAssertCallSite, hbare.elim Bare.blocks Bare.blocks, List.flatMap_nil]
    · intro _
      exact getAssertCallSite_handlerFn hM

theorem callees_counted_poll : ∃ M', runOnModule pollModule = .ok M' ∧
    (∀ F ∈ pollModule.functions, ∀ I ∈ F.insts, getCalleeFnType M' I = getCalleeFnType pollModule I ∧
      isInlineAsmWithSideEffect M' I = isInlineAsmWithSideEffect pollModule I ∧
        isInstMemOps M' I = isInstMemOps pollModule I) ∧
    (∀ F ∈ pollModule.functions, ∃ F' ∈ M'.functions, F'.id = F.id ∧
      getAssertCallSite M' F' = getAssertCallSite pollModule F) ∧
    ∀ F' ∈ M'.functions, (∀ F ∈ pollModule.functions, F.id ≠ F'.id) → getAssertCallSite M' F' = [] :=
  callees_counted ready_pollModule

/-! ### The dumps -/

theorem dumpModule_ok_iff {P : Printer} {M : Module} : Succeeds (DumpModule.runOnModule P M) ↔
    ∀ F ∈ M.functions, (DumpModule.TypeHandled F.type.ret ∧ ∀ t ∈ F.type.params, DumpModule.TypeHandled t) ∧
      ∀ I ∈ F.insts, DumpModule.Dumpable M I := by
  rw [DumpModule.runOnModule, succeeds_map, emitAll_ok_iff]
  exact forall₂_congr fun F _ => DumpModule.runOnFunc_ok_iff

theorem dumpConsts_ok_iff {P : Printer} {M : Module} : Succeeds (DumpConsts.runOnModule P M) ↔
    ∀ F ∈ M.functions, ∀ I ∈ F.insts, ∀ c, .const c ∈ I.operands → DumpConsts.Describable c := by
  rw [DumpConsts.runOnModule, emitAll_ok_iff]
  refine forall₂_congr fun F _ => ?_
  rw [emitAll_ok_iff, Function.insts, List.forall_mem_flatMap]
  refine forall₂_congr fun B _ => ?_
  rw [emitAll_ok_iff]
  exact forall₂_congr fun I _ => DumpConsts.dumpInst_ok_iff

/-- The types the pass declares functions with are handled. -/
theorem typeHandled_declared {ty : FunctionType} (h : ty = atexitCallTy ∨ ty = atexitTy ∨ ty = printfTy) :
    DumpModule.TypeHandled ty.ret ∧ ∀ t ∈ ty.params, DumpModule.TypeHandled t := by
  rcases h with rfl | rfl | rfl
  · exact ⟨by simp [DumpModule.TypeHandled, atexitCallTy, Ty.getTypeID], by simp [atexitCallTy]⟩
  · exact ⟨by simp [DumpModule.TypeHandled, atexitTy, Ty.getTypeID],
      by simp [DumpModule.TypeHandled, atexitTy, FunctionType.ptrTy, Ty.getTypeID]⟩
  · exact ⟨by simp [DumpModule.TypeHandled, printfTy, Ty.getTypeID],
      by simp [DumpModule.TypeHandled, printfTy, Ty.getTypeID]⟩

section Counted

variable {M : Module} {main : Function} (hM : Ready M main)
include hM

theorem dumpable_named {g : ℕ} {name : String} {ty : FunctionType} {pty : Ty} {I : Instruction}
    (h : Named (instrumented M main (counter M)) g name ty)
    (hcallee : I.calledOperand = some (.const (.global g .function pty))) (hop : I.opcode = .call ty false) :
    DumpModule.Dumpable (instrumented M main (counter M)) I := by
  have hty : I.callType = some ty := by rw [Instruction.callType, hop]
  obtain ⟨F, hF, -⟩ := getCalledFunction_named hM h hcallee hty
  rw [DumpModule.Dumpable, hop]
  exact DumpModule.getCalledFunction_isSome_iff.mp ⟨F, hF⟩

/-- An instruction of the source is dumped as before. -/
theorem dumpable_counted {F : Function} (hF : F ∈ M.functions) {I : Instruction} (hI : I ∈ F.insts) :
    DumpModule.Dumpable (instrumented M main (counter M)) I ↔ DumpModule.Dumpable M I := by
  have hdirect : DumpModule.DirectCall (instrumented M main (counter M)) I ↔ DumpModule.DirectCall M I := by
    rw [← DumpModule.getCalledFunction_isSome_iff, ← DumpModule.getCalledFunction_isSome_iff,
      getCalledFunction_counted hM hF hI]
    simp
  rw [DumpModule.Dumpable, DumpModule.Dumpable]
  split
  · exact Iff.rfl
  · exact Iff.rfl
  · exact hdirect
  · exact Iff.rfl

theorem dumpable_added {I : Instruction} (hI : IsAdded M I) :
    DumpModule.Dumpable (instrumented M main (counter M)) I := by
  rcases hI with ⟨n, hI⟩ | ⟨n, rfl⟩
  · simp only [countInsts, List.mem_cons, List.not_mem_nil, or_false] at hI
    rcases hI with rfl | rfl | rfl <;> trivial
  · exact dumpable_named hM (named_atexit hM) rfl rfl

theorem dumpable_handlerFn : ∀ I ∈ (handlerFn M main).insts,
    DumpModule.Dumpable (instrumented M main (counter M)) I := by
  rw [handlerFn_insts]
  intro I hI
  simp only [List.mem_cons, List.not_mem_nil, or_false] at hI
  rcases hI with rfl | rfl | rfl
  · trivial
  · exact dumpable_named hM (named_printf hM) rfl rfl
  · trivial

omit hM in
/-- The constants the pass uses are described. -/
theorem describable_added {I : Instruction} (hI : IsAdded M I) :
    ∀ c, .const c ∈ I.operands → DumpConsts.Describable c := by
  intro c hc
  rcases hI with ⟨n, hI⟩ | ⟨n, rfl⟩
  · simp only [countInsts, List.mem_cons, List.not_mem_nil, or_false] at hI
    rcases hI with rfl | rfl | rfl
    · rw [List.mem_singleton.mp hc |> Value.const.inj]
      trivial
    · simp only [newCounter, List.mem_cons, List.not_mem_nil, or_false] at hc
      rcases hc with hc | hc
      · cases hc
      · rw [Value.const.inj hc]
        trivial
    · simp only [storeCounter, List.mem_cons, List.not_mem_nil, or_false] at hc
      rcases hc with hc | hc
      · cases hc
      · rw [Value.const.inj hc]
        trivial
  · simp only [registerCall, List.mem_cons, List.not_mem_nil, or_false] at hc
    rcases hc with hc | hc <;> rw [Value.const.inj hc] <;> trivial

omit hM in
theorem describable_handlerFn : ∀ I ∈ (handlerFn M main).insts, ∀ c, .const c ∈ I.operands →
    DumpConsts.Describable c := by
  rw [handlerFn_insts]
  intro I hI c hc
  simp only [List.mem_cons, List.not_mem_nil, or_false] at hI
  rcases hI with rfl | rfl | rfl
  · rw [List.mem_singleton.mp hc |> Value.const.inj]
    trivial
  · obtain ⟨elem, g, gty, hfmt⟩ := geti8StrVal_snd (withPrintf M main) formatStr "fmt"
    simp only [handlerCall, List.mem_cons, List.not_mem_nil, or_false] at hc
    rcases hc with hc | hc | hc
    · rw [Value.const.inj hc, CountBB.format, hfmt]
      trivial
    · cases hc
    · rw [Value.const.inj hc]
      trivial
  · cases hc

end Counted

/-- **Both dumps get through the counted module exactly when they get through the source**, whatever prints them. -/
theorem dumps_counted {M : Module} {main : Function} (hM : Ready M main) :
    ∃ M', runOnModule M = .ok M' ∧ ∀ P P',
      (Succeeds (DumpModule.runOnModule P' M') ↔ Succeeds (DumpModule.runOnModule P M)) ∧
        (Succeeds (DumpConsts.runOnModule P' M') ↔ Succeeds (DumpConsts.runOnModule P M)) := by
  refine ⟨_, hM.runOnModule, fun P P' => ⟨?_, ?_⟩⟩
  · rw [dumpModule_ok_iff, dumpModule_ok_iff, forall_functions_instrumented hM]
    · refine forall₂_congr fun F hF => and_congr ?_ ?_
      · rw [countedFn_type]
      · rw [forall_countedFn fun I hI => dumpable_added hM hI]
        exact forall₂_congr fun I hI => dumpable_counted hM hF hI
    · intro F hbare
      refine ⟨typeHandled_declared (.inr (hbare.imp Bare.type Bare.type)), fun I hI => ?_⟩
      rw [hbare.elim Bare.insts Bare.insts] at hI
      cases hI
    · exact ⟨typeHandled_declared (.inl rfl), dumpable_handlerFn hM⟩
  · rw [dumpConsts_ok_iff, dumpConsts_ok_iff, forall_functions_instrumented hM]
    · exact forall₂_congr fun F _ => forall_countedFn (fun I hI => describable_added hI) F
    · intro F hbare I hI
      rw [hbare.elim Bare.insts Bare.insts] at hI
      cases hI
    · exact describable_handlerFn

theorem dumps_counted_poll : ∃ M', runOnModule pollModule = .ok M' ∧ ∀ P P',
    (Succeeds (DumpModule.runOnModule P' M') ↔ Succeeds (DumpModule.runOnModule P pollModule)) ∧
      (Succeeds (DumpConsts.runOnModule P' M') ↔ Succeeds (DumpConsts.runOnModule P pollModule)) :=
  dumps_counted ready_pollModule

end SnippetsLlvm.Pipeline
