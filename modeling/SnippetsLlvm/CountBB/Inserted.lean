import SnippetsLlvm.CountBB.Added
import SnippetsLlvm.CountBB.Counter
import SnippetsLlvm.CountBB.Stages

/-!
# What the inserted code does

One lemma for each inserted instruction: from a state in which it comes next, the step it makes.  The
registration and the call of `printf` leave the module, so they need `printf` and `atexit` defined elsewhere.

* `External` — `printf` and `atexit` are not functions of the module;
* `step_register`, `step_count` — the registration at the front of `main`, the counting code;
* `step_handlerLoad`, `step_handlerCall`, `step_handlerRet` — the handler.
-/

namespace SnippetsLlvm.CountBB

open SnippetsLlvm.Ir SnippetsLlvm.Library

/-! ### The handler -/

section Handler

variable (M : Module) (main : Function)

/-- The call of `printf` in the handler. -/
def printCall : Instruction := handlerCall 0 (counter M) (printfId M main) (format M main)

/-- The handler when it is entered. -/
def handlerFrame (D : DataSem) : Frame D.toDataOps :=
  ⟨handlerId M, 0, none, [oldCounter 0 (counter M), printCall M main, handlerRet 0], fun _ => none, [],
    none⟩

end Handler

/-! ### Declarations -/

/-- `printf` and `atexit`, if the module has them, are defined elsewhere. -/
structure External (M : Module) : Prop where
  printf : ∀ F, M.getFunction "printf" = some F → F.isDeclaration = true
  atexit : ∀ F, M.getFunction "atexit" = some F → F.isDeclaration = true

theorem External.of_absent {M : Module} (hprintf : M.getFunction "printf" = none)
    (hatexit : M.getFunction "atexit" = none) : External M := by
  constructor
  · intro F hF
    rw [hprintf] at hF
    cases hF
  · intro F hF
    rw [hatexit] at hF
    cases hF

/-- The identity `g` is that of a declaration of the given name. -/
def DeclaredAs (M : Module) (g : ℕ) (name : String) : Prop :=
  ∃ F, M.function? g = some F ∧ F.isDeclaration = true ∧ F.name = name

theorem declaredAs_symbol {N : Module} (hN : N.WellFormed) {name : String} {ty : FunctionType}
    {attrs : AttributeList} (hok : OkSymbol N name ty)
    (hdecl : ∀ F, N.getFunction name = some F → F.isDeclaration = true) :
    DeclaredAs (withSymbol N name ty attrs) (symbolId N name) name := by
  rw [withSymbol, symbolId]
  cases hV : N.getNamedValue name with
  | none =>
    have hfree := Module.getNamedValue_eq_none_iff.mp hV
    refine ⟨_, Module.function?_addFunction_self fun F hF => Nat.ne_of_lt (hN.function_lt hF), rfl, ?_⟩
    show (N.uniqueName name).1 = name
    rw [Module.uniqueName_of_notMem hfree]
  | some V =>
    obtain ⟨F, rfl, rfl⟩ := hok V hV
    have hF := Module.getFunction_eq_some.mpr hV
    exact ⟨F, hN.function?_of_mem (Module.mem_functions_of_getFunction hF), hdecl F hF,
      Module.name_of_getFunction hF⟩

theorem DeclaredAs.symbol {N : Module} (hN : N.WellFormed) {g : ℕ} {n name : String}
    {ty : FunctionType} {attrs : AttributeList} (h : DeclaredAs N g n) :
    DeclaredAs (withSymbol N name ty attrs) g n := by
  obtain ⟨F, hF, hdecl, hname⟩ := h
  obtain ⟨hmem, hid⟩ := Module.mem_of_function? hF
  have hlt := hN.function_lt hmem
  exact ⟨F, by rw [function?_withSymbol_ne (by omega), hF], hdecl, hname⟩

/-- A declaration has no front for a registration. -/
theorem registerAtFront_declaration {F : Function} (hF : F.isDeclaration = true) (a h : ℕ) :
    registerAtFront a h F = F := by
  rw [registerAtFront]
  cases hB : F.blocks with
  | nil => rfl
  | cons B Bs => simp [Function.isDeclaration, hB] at hF

namespace Ready

variable {M : Module} {main : Function} (hM : Ready M main)
include hM

theorem withPrintf_wellFormed : (withPrintf M main).WellFormed :=
  CountBB.withPrintf_wellFormed hM.wf hM.setupCond

/-- A declaration is one in the result. -/
theorem declaredAs_instrumented {g : ℕ} {n : String} (h : DeclaredAs (withPrintf M main) g n)
    (hn : n ≠ atexitCallStr) : DeclaredAs (instrumented M main (counter M)) g n := by
  obtain ⟨F, hF, hdecl, hname⟩ := h
  have hne : F.id ≠ handlerId M := by
    intro hid
    rcases hM.mem_withPrintf (Module.mem_of_function? hF).1 with ⟨G, hG, rfl⟩ | ⟨-, -, hh⟩
    · have hlt := hM.wf.function_lt hG
      have hh := hM.handlerId_eq
      have hidG : (if G.id = main.id then registerAtFront (atexitId M) (handlerId M) G else G).id =
          G.id := by
        split
        · rw [registerAtFront_id]
        · rfl
      omega
    · exact hn (hname.symm.trans (hh hid))
  have hfind : (withReport M main).function? g = some F := by
    have hmap := Module.find?_map_id (f := fun F => if F.id = handlerId M then
      appendReport (counter M) (printfId M main) (format M main) F else F)
      (fun F => by split <;> rfl) (withPrintf M main).functions g
    rw [Module.function?, withReport_functions, hmap]
    rw [Module.function?] at hF
    rw [hF, Option.map_some, if_neg hne]
  have hB : F.blocks = [] := by simpa [Function.isDeclaration] using hdecl
  refine ⟨countUnlessHandler (counter M) F, ?_, ?_, ?_⟩
  · rw [function?_instrumented, hfind, Option.map_some]
  · rw [countUnlessHandler]
    split
    · exact hdecl
    · simp [countFunction, Function.isDeclaration, hB, countBlocks]
  · rw [countUnlessHandler]
    split <;> exact hname

variable (hX : External M)
include hX

/-- The function `atexit` of the result is not one of the module. -/
theorem atexit_declared : DeclaredAs (instrumented M main (counter M)) (atexitId M) "atexit" := by
  have hwf := withHandler_wellFormed hM.wf
  have hdecl : ∀ F, (withHandler M).getFunction "atexit" = some F → F.isDeclaration = true := by
    intro F hF
    rw [Module.getFunction_eq_some, hM.withHandler_getNamedValue (by decide) (by decide)] at hF
    exact hX.atexit F (Module.getFunction_eq_some.mpr hF)
  obtain ⟨F, hF, hd, hname⟩ :=
    @declaredAs_symbol _ hwf _ _ ⟨["nounwind"], []⟩ hM.setupCond.atexit hdecl
  have hreg : DeclaredAs (withRegister M main) (atexitId M) "atexit" := by
    refine ⟨F, ?_, hd, hname⟩
    rw [withRegister, Module.function?_modifyFunction (registerAtFront_id _ _), withAtexit]
    rw [atexitId, hF, Option.map_some]
    split
    · rw [registerAtFront_declaration hd]
    · rfl
  exact hM.declaredAs_instrumented
    (hreg.symbol (withRegister_wellFormed hM.wf hM.setupCond)) (by decide)

/-- The function `printf` of the result is not one of the module. -/
theorem printf_declared : DeclaredAs (instrumented M main (counter M)) (printfId M main) "printf" := by
  refine hM.declaredAs_instrumented (declaredAs_symbol
    (withRegister_wellFormed hM.wf hM.setupCond) hM.okPrintf fun F hF => ?_) (by decide)
  rw [Module.getFunction_eq_some, hM.withRegister_printf] at hF
  obtain ⟨V, hV, hF⟩ := Option.map_eq_some_iff.mp hF
  cases V with
  | function G =>
    have hdecl := hX.printf G (Module.getFunction_eq_some.mpr hV)
    rw [GlobalValue.edit, GlobalValue.function.injEq] at hF
    subst hF
    split
    · rw [registerAtFront_declaration hdecl]
      exact hdecl
    · exact hdecl
  | _ => cases hF

/-! ### The registration -/

variable {D : DataSem} {s : State D.toDataOps} {fr : Frame D.toDataOps} {rest : List Instruction}

/-- **The registration** puts the handler on the list and goes on. -/
theorem step_register {n : ℕ} (hc : s.control = .exec fr)
    (ht : fr.todo = registerCall n (atexitId M) (handlerId M) :: rest) :
    (instrumented M main (counter M)).step s .tick =
      some (.exec fr.fn fr.block [registerCall n (atexitId M) (handlerId M)]
          [.ptr (.global (handlerId M)) 0, .ptr (.global (atexitId M)) 0],
        { s with control := .exec ({ fr with todo := rest }.set n (.int 32 0)),
                 handlers := handlerId M :: s.handlers }) := by
  obtain ⟨A, hA, hdecl, hname⟩ := hM.atexit_declared hX
  have hvs : (instrumented M main (counter M)).operandVals fr
      (registerCall n (atexitId M) (handlerId M)) =
        some [.ptr (.global (handlerId M)) 0, .ptr (.global (atexitId M)) 0] := by
    simp [Module.operandVals, registerCall, Module.operandVal]
  refine step_inst hc ht rfl hvs ?_
  have hop : (registerCall n (atexitId M) (handlerId M)).opcode = .call atexitTy false := rfl
  rw [instStep_call rfl, callStep_atexit (h := handlerId M) rfl hA hdecl hname rfl, deliver_call hop,
    Option.map_some]
  rfl

/-! ### The counting code -/

omit hX hM in
/-- The load of the counter, in the counting code or in the handler. -/
theorem step_load {n : ℕ} {c : D.Content} {x : BitVec 64} (hc : s.control = .exec fr) (ht : fr.todo = oldCounter n (counter M) :: rest)
    (hmem : s.mem (.global (counter M).id) = some c) (hx : D.Holds64 c x) :
    (instrumented M main (counter M)).step s .tick =
      some (.exec fr.fn fr.block [oldCounter n (counter M)] [.ptr (.global (counter M).id) 0],
        { s with control := .exec ({ fr with todo := rest }.set n (.int 64 x)),
                 mem := fun o => if o = .global (counter M).id then some c else s.mem o }) := by
  refine step_inst hc ht rfl (operandVals_oldCounter fr n (counter M)) ?_
  have hacc := hx (oldCounter n (counter M)) [.ptr (.global (counter M).id) 0] rfl (counter_valueType M)
  show ((s.mem _).bind _) = _
  rw [hmem, Option.bind_some]
  show (D.access (oldCounter n (counter M)) c 0 [.ptr (.global (counter M).id) 0]).map _ = _
  rw [hacc]
  rfl

omit hX hM in
/-- The addition. -/
theorem step_add {n : ℕ} {x : BitVec 64} (hc : s.control = .exec fr) (ht : fr.todo = newCounter n (counter M) :: rest)
    (hl : fr.locals n = some (.int 64 x)) :
    (instrumented M main (counter M)).step s .tick =
      some (.exec fr.fn fr.block [newCounter n (counter M)] [.int 64 x, .int 64 1#64],
        { s with control := .exec ({ fr with todo := rest }.set (n + 1) (.int 64 (x + 1#64))) }) := by
  refine step_inst hc ht rfl (operandVals_newCounter fr n (counter M) hl) ?_
  have hadd := D.eval_add (newCounter n (counter M)) fr.pad x 1#64 rfl (counter_valueType M)
  show (D.eval (newCounter n (counter M)) fr.pad [.int 64 x, .int 64 1#64]).map _ = _
  rw [hadd]
  rfl

omit hX hM in
/-- The store of the new count. -/
theorem step_store {n : ℕ} {c : D.Content} {x y : BitVec 64} (hc : s.control = .exec fr)
    (ht : fr.todo = storeCounter n (counter M) :: rest) (hl : fr.locals (n + 1) = some (.int 64 y))
    (hmem : s.mem (.global (counter M).id) = some c) (hx : D.Holds64 c x) :
    ∃ c', (instrumented M main (counter M)).step s .tick =
      some (.exec fr.fn fr.block [storeCounter n (counter M)]
          [.int 64 y, .ptr (.global (counter M).id) 0],
        { s with control := .exec ({ fr with todo := rest }.set (n + 2) .void),
                 mem := fun o => if o = .global (counter M).id then some c' else s.mem o }) := by
  obtain ⟨c', hst, -⟩ := D.store_i64 (storeCounter n (counter M)) c x y
    (.ptr (.global (counter M).id) 0) hx rfl
  refine ⟨c', step_inst hc ht rfl (operandVals_storeCounter fr n (counter M) hl) ?_⟩
  show ((s.mem _).bind _) = _
  rw [hmem, Option.bind_some]
  show (D.access (storeCounter n (counter M)) c 0 _).map _ = _
  rw [hst]
  rfl

/-! ### The steps of the handler -/

omit hX in
/-- At normal termination the handler is entered. -/
theorem step_runHandler {hs : List ℕ} (hc : s.control = .env .exiting)
    (hh : s.handlers = handlerId M :: hs) :
    (instrumented M main (counter M)).step s .runHandler =
      some (.handler (handlerId M),
        { s with control := .exec (handlerFrame M main D), conts := .env .exiting :: s.conts,
                 handlers := hs }) := by
  have hid : (handlerFn M main).id = handlerId M := hM.handlerDecl_id
  simp only [Module.step, hc]
  show ((Module.startHandler _ s).map _) = _
  rw [Module.startHandler, hh]
  dsimp only
  rw [hM.function?_handler, Option.bind_some, if_neg (by simp [handlerFn, appendReport,
    Function.isDeclaration]), Module.enterFrom, hM.function?_handler, Option.bind_some]
  have henter : (handlerFn M main).enter [] = some (handlerFrame M main D) := by
    show some (Frame.mk (handlerFn M main).id _ _ _ _ _ _) = _
    rw [hid]
    rfl
  rw [henter]
  simp only [Option.map_some, Ir.envEvent, hh, List.headD_cons]

omit hX hM in
/-- The format string has an address. -/
theorem constVal_format (M' : Module) : ∃ v : Val D.Data, M'.constVal D.toDataOps (format M main) = some v := by
  obtain ⟨elem, g, gty, hfmt⟩ : ∃ elem g gty, format M main =
      .expr (.getElementPtr elem) .i8Ptr [.global g .variable gty, .int 32 0, .int 32 0] :=
    geti8StrVal_snd (withPrintf M main) formatStr "fmt"
  exact ⟨_, by rw [hfmt, constVal_expr, D.constant_first]⟩

/-- The call of `printf` goes out with what the handler loaded. -/
theorem step_handlerCall {v : Val D.Data} (hc : s.control = .exec fr)
    (ht : fr.todo = printCall M main :: rest) (hl : fr.locals 0 = some v) :
    ∃ fmt, (instrumented M main (counter M)).step s .tick =
      some (.exec fr.fn fr.block [printCall M main] [fmt, v, .ptr (.global (printfId M main)) 0],
        { s with control := .env .ext,
                 conts := .frame { fr with todo := rest } (printCall M main) :: s.conts }) := by
  obtain ⟨A, hA, hdecl, hname⟩ := hM.printf_declared hX
  have hformat : ∃ v : Val D.Data,
      (instrumented M main (counter M)).constVal D.toDataOps (format M main) = some v := constVal_format _
  obtain ⟨fmt, hfmt⟩ := hformat
  have hvs : (instrumented M main (counter M)).operandVals fr (printCall M main) =
      some [fmt, v, .ptr (.global (printfId M main)) 0] := by
    simp [Module.operandVals, printCall, handlerCall, handlerLoad, Instruction.ref, Module.operandVal, hfmt,
      hl]
  refine ⟨fmt, step_inst hc ht rfl hvs ?_⟩
  rw [instStep_call rfl, callStep_external rfl hA hdecl (by rw [hname]; decide)]

omit hX hM in
/-- What `printf` returns is left alone. -/
theorem step_printed {v : Val D.Data} {ks : List (Cont D.toDataOps)} (hc : s.control = .env .ext)
    (hks : s.conts = .frame fr (printCall M main) :: ks) :
    (instrumented M main (counter M)).step s (.ret v) =
      some (.act (some fr.fn) (.ret v),
        { s with control := .exec (fr.set 1 v), conts := ks }) := by
  simp only [Module.step, hc, Module.envStep, hks, Ir.envEvent, callerOf]
  rfl

omit hX hM in
/-- The handler returns to what runs at exit. -/
theorem step_handlerRet {ks : List (Cont D.toDataOps)} (hc : s.control = .exec fr)
    (ht : fr.todo = [handlerRet 0]) (hks : s.conts = .env .exiting :: ks) :
    (instrumented M main (counter M)).step s .tick =
      some (.exec fr.fn fr.block [handlerRet 0] [],
        { s with control := .env .exiting, conts := ks }) := by
  refine step_inst hc ht rfl rfl ?_
  show ((Module.returnTo _ _ s.conts).map _) = _
  rw [hks]
  rfl

end Ready

end SnippetsLlvm.CountBB
