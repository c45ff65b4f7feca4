import SnippetsLlvm.Ir.Verifier

/-!
# The call classifiers

The helpers on calls ask `getCalledFunction` for the callee.  It is null unless the callee operand is itself
a function of the type of the call, so for a call through a pointer or of inline assembly two of the helpers
cast a null pointer.

* `CallInst` — a call instruction;
* `getCalleeFnType`, `isInlineAsmWithSideEffect`, `isInstMemOps` — the classifiers;
* `CalleeAgrees` — what they are for;
* `calleeAgrees_iff` — **they agree with the callee operand exactly for direct calls**;
* `getAssertCallSite` — the calls of `__assert_fail` in a function.
-/

namespace SnippetsLlvm.MyBase

open SnippetsLlvm.Ir

/-! ### Calls -/

/-- A call instruction: its type is the return type of its function type, and its arguments have the types
of the parameters.  The callee operand is any value. -/
structure CallInst where
  inst : Instruction
  fnTy : FunctionType
  mustTail : Bool
  callee : Value
  opcode_eq : inst.opcode = .call fnTy mustTail
  callee_eq : inst.operands.getLast? = some callee
  result : inst.type = fnTy.ret
  args : (inst.callArgs.map Value.getType).take fnTy.params.length = fnTy.params
  arity : fnTy.isVarArg = false → inst.callArgs.length = fnTy.params.length

/-- `CallBase::isInlineAsm`. -/
def isInlineAsm (I : Instruction) : Bool :=
  match I.calledOperand with
  | some (.inlineAsm _ _ _ _ _ _) => true
  | _ => false

/-! ### The classifiers -/

/-- `isFn_malloc`. -/
def isFnMalloc (F : Function) : Bool := F.isDeclaration && F.name ≠ "" && F.name = "malloc"

/-- `isFn_free`. -/
def isFnFree (F : Function) : Bool := F.isDeclaration && F.name ≠ "" && F.name = "free"

/-- `isFn_memcpy`. -/
def isFnMemcpy (F : Function) : Bool := F.intrinsic = some .memcpy

/-- `isFn_memmove`. -/
def isFnMemmove (F : Function) : Bool := F.intrinsic = some .memmove

/-- `isFn_memset`. -/
def isFnMemset (F : Function) : Bool := F.intrinsic = some .memset

/-- `isFn_mem_ops`. -/
def isFnMemOps : Option Function → Bool
  | none => false
  | some F => isFnMalloc F || isFnFree F || isFnMemcpy F || isFnMemmove F || isFnMemset F

variable (M : Module)

/-- **`getCalleeFnType`.**  The cast to `Function` is applied to the result of `getCalledFunction`: it fails
on null and succeeds on a function, so that the branch for function pointers is never taken. -/
def getCalleeFnType (C : Instruction) : Except Failure FunctionType :=
  if isInlineAsm C then .error (.assertFailed "Inline assembly is not supported!")
  else match M.getCalledFunction C with
    | none => .error .nullDereference
    | some fn => .ok fn.type

/-- **`is_inlineAsm_withSideEffect`.**  The cast to `InlineAsm` fails on null, and a function is never inline
assembly. -/
def isInlineAsmWithSideEffect (C : Instruction) : Except Failure Bool :=
  match M.getCalledFunction C with
  | none => .error .nullDereference
  | some _ => .ok false

/-- **`isInst_mem_ops`.** -/
def isInstMemOps (C : Instruction) : Except Failure Bool := .ok (isFnMemOps (M.getCalledFunction C))

/-! ### What they are for -/

/-- The callee operand is the function `F`. -/
def CalleeIs (C : CallInst) (F : Function) : Prop :=
  ∃ g ty, C.callee = .const (.global g .function ty) ∧ M.function? g = some F

/-- Inline assembly with side effects. -/
def IsAsmWithSideEffect (v : Value) : Prop :=
  ∃ fnTy str cs isAlignStack isATT, v = .inlineAsm fnTy str cs true isAlignStack isATT

/-- A declared `malloc` or `free`, or one of the intrinsics `memcpy`, `memmove`, `memset`. -/
def IsMemOps (F : Function) : Prop :=
  (F.isDeclaration = true ∧ (F.name = "malloc" ∨ F.name = "free")) ∨ F.intrinsic = some .memcpy ∨
    F.intrinsic = some .memmove ∨ F.intrinsic = some .memset

/-- The classifiers agree with the callee operand of a call. -/
structure CalleeAgrees (C : CallInst) : Prop where
  fnType : isInlineAsm C.inst = false → ∃ ft, getCalleeFnType M C.inst = .ok ft ∧ ft = C.fnTy ∧
    ft.ret = C.inst.type ∧ (C.inst.callArgs.map Value.getType).take ft.params.length = ft.params ∧
    (ft.isVarArg = false → C.inst.callArgs.length = ft.params.length)
  sideEffect : ∃ b, isInlineAsmWithSideEffect M C.inst = .ok b ∧
    (b = true ↔ IsAsmWithSideEffect C.callee)
  memOps : ∃ b, isInstMemOps M C.inst = .ok b ∧ (b = true ↔ ∃ F, CalleeIs M C F ∧ IsMemOps F)
  noNull : getCalleeFnType M C.inst ≠ .error .nullDereference ∧
    isInlineAsmWithSideEffect M C.inst ≠ .error .nullDereference ∧
    isInstMemOps M C.inst ≠ .error .nullDereference

/-! ### What they do -/

variable {M}

theorem CallInst.calledOperand (C : CallInst) : C.inst.calledOperand = some C.callee := by
  rw [Instruction.calledOperand, C.opcode_eq, ← C.callee_eq]
  rfl

theorem CallInst.callType (C : CallInst) : C.inst.callType = some C.fnTy := by
  rw [Instruction.callType, C.opcode_eq]

/-- The called function is the callee operand when that is a function of the type of the call. -/
theorem getCalledFunction_eq_some {C : CallInst} {F : Function} :
    M.getCalledFunction C.inst = some F ↔ CalleeIs M C F ∧ F.type = C.fnTy := by
  rw [Module.getCalledFunction, C.calledOperand, C.callType, CalleeIs]
  split
  · rename_i g ty hop
    rw [Option.some.injEq] at hop
    rw [Option.filter_eq_some_iff, hop]
    constructor
    · rintro ⟨hF, hty⟩
      exact ⟨⟨g, ty, rfl, hF⟩, by simpa using hty⟩
    · rintro ⟨⟨g', ty', hcallee, hF⟩, hty⟩
      cases hcallee
      exact ⟨hF, by simpa using hty⟩
  · rename_i hno
    constructor
    · intro h
      cases h
    · rintro ⟨⟨g, ty, hcallee, -⟩, -⟩
      exact absurd (congrArg some hcallee) (hno g ty)

theorem isFnMemOps_iff {F : Function} : isFnMemOps (some F) = true ↔ IsMemOps F := by
  have hnamed : ∀ s : String, s ≠ "" → ((F.isDeclaration && F.name ≠ "" && F.name = s) = true ↔
      F.isDeclaration = true ∧ F.name = s) := by
    intro s hs
    simp only [Bool.and_eq_true, decide_eq_true_eq]
    constructor
    · rintro ⟨⟨hdecl, -⟩, hname⟩
      exact ⟨hdecl, hname⟩
    · rintro ⟨hdecl, rfl⟩
      exact ⟨⟨hdecl, hs⟩, rfl⟩
  simp only [isFnMemOps, isFnMalloc, isFnFree, isFnMemcpy, isFnMemmove, isFnMemset, IsMemOps,
    Bool.or_eq_true, hnamed "malloc" (by decide), hnamed "free" (by decide), decide_eq_true_eq]
  tauto

/-- The callee operand is one function at most. -/
theorem CalleeIs.unique {C : CallInst} {F G : Function} (hF : CalleeIs M C F) (hG : CalleeIs M C G) :
    F = G := by
  obtain ⟨g, ty, hcallee, hF⟩ := hF
  obtain ⟨g', ty', hcallee', hG⟩ := hG
  rw [hcallee] at hcallee'
  cases hcallee'
  exact Option.some.inj (hF.symm.trans hG)

/-- **For a direct call the classifiers agree with the callee operand.** -/
theorem calleeAgrees_of_direct {C : CallInst} {F : Function} (hF : CalleeIs M C F)
    (hty : F.type = C.fnTy) : CalleeAgrees M C := by
  have hcalled : M.getCalledFunction C.inst = some F := getCalledFunction_eq_some.mpr ⟨hF, hty⟩
  have hglobal := hF
  obtain ⟨g, ty, hcallee, -⟩ := hglobal
  have hasm : isInlineAsm C.inst = false := by
    rw [isInlineAsm, C.calledOperand, hcallee]
  have hfn : getCalleeFnType M C.inst = .ok C.fnTy := by
    rw [getCalleeFnType, hasm, hcalled, ← hty]
    rfl
  have hside : isInlineAsmWithSideEffect M C.inst = .ok false := by
    rw [isInlineAsmWithSideEffect, hcalled]
  refine ⟨fun _ => ⟨C.fnTy, hfn, rfl, C.result.symm, C.args, C.arity⟩, ⟨false, hside, ?_⟩, ⟨_, rfl, ?_⟩, ?_⟩
  · constructor
    · intro h
      cases h
    · rintro ⟨_, _, _, _, _, hv⟩
      rw [hcallee] at hv
      cases hv
  · rw [hcalled, isFnMemOps_iff]
    constructor
    · intro hmem
      exact ⟨F, hF, hmem⟩
    · rintro ⟨G, hG, hmem⟩
      rwa [hF.unique hG]
  · rw [hfn, hside, isInstMemOps]
    exact ⟨by simp, by simp, by simp⟩

/-- **The call classifiers agree with the callee operand exactly for direct calls**: calls whose callee
operand is itself a function of the type of the call. -/
theorem calleeAgrees_iff (M : Module) (C : CallInst) :
    CalleeAgrees M C ↔ ∃ F, CalleeIs M C F ∧ F.type = C.fnTy := by
  constructor
  · intro h
    obtain ⟨b, hb, -⟩ := h.sideEffect
    rw [isInlineAsmWithSideEffect] at hb
    cases hcalled : M.getCalledFunction C.inst with
    | none =>
      rw [hcalled] at hb
      cases hb
    | some F => exact ⟨F, getCalledFunction_eq_some.mp hcalled⟩
  · rintro ⟨F, hF, hty⟩
    exact calleeAgrees_of_direct hF hty

/-! ### A call through a pointer, and a call of inline assembly -/

/-- The type `int (void)`. -/
def intVoid : FunctionType := ⟨.i32, [], false⟩

/-- The call in `int apply(int (*f)(void)) { return f(); }`. -/
def applyCall : CallInst where
  inst := ⟨0, .call intVoid false, .i32, [.arg 0 intVoid.ptrTy], false⟩
  fnTy := intVoid
  mustTail := false
  callee := .arg 0 intVoid.ptrTy
  opcode_eq := rfl
  callee_eq := rfl
  result := rfl
  args := rfl
  arity _ := rfl

/-- `int apply(int (*f)(void)) { return f(); }`. -/
def applyFn : Function :=
  ⟨0, "apply", ⟨.i32, [intVoid.ptrTy], false⟩, .external, ⟨[], []⟩, false, 0, none, none, none, none,
    [⟨0, "entry", [applyCall.inst, ⟨1, .ret, .void, [.inst 0 (.call intVoid false) .i32], false⟩]⟩], 2, 1⟩

/-- The module of `applyFn`. -/
def applyModule : Module := ⟨[applyFn], [], [], [], [], 1, 0⟩

/-- The call in `asm volatile ("nop");`. -/
def asmCall : CallInst where
  inst := ⟨0, .call ⟨.void, [], false⟩ false, .void,
    [.inlineAsm ⟨.void, [], false⟩ "nop" "" true false true], false⟩
  fnTy := ⟨.void, [], false⟩
  mustTail := false
  callee := .inlineAsm ⟨.void, [], false⟩ "nop" "" true false true
  opcode_eq := rfl
  callee_eq := rfl
  result := rfl
  args := rfl
  arity _ := rfl

/-- Both casts meet a null pointer in a well-formed module: the one to `Function` for a call through a
pointer, the one to `InlineAsm` there and for the inline assembly it asks for. -/
theorem calleeAgrees_applyCall : applyModule.WellFormed ∧ applyCall.inst ∈ applyFn.insts ∧
    getCalleeFnType applyModule applyCall.inst = .error .nullDereference ∧
    isInlineAsmWithSideEffect applyModule applyCall.inst = .error .nullDereference ∧
    isInlineAsmWithSideEffect applyModule asmCall.inst = .error .nullDereference ∧
    ¬ CalleeAgrees applyModule applyCall ∧ ¬ CalleeAgrees applyModule asmCall := by
  refine ⟨Module.Verified.wellFormed (by decide), by simp [applyFn, Function.insts], rfl, rfl, rfl, ?_, ?_⟩
  · intro h
    exact h.noNull.1 rfl
  · intro h
    exact h.noNull.2.1 rfl

/-! ### The calls of a failed assertion -/

/-- A call instruction whose called function is named `__assert_fail`. -/
def isAssertCall (M : Module) (I : Instruction) : Bool :=
  match I.opcode with
  | .call _ _ =>
    match M.getCalledFunction I with
    | none => false
    | some callee => callee.name = "__assert_fail"
  | _ => false

/-- **`getAssertCallSite`.** -/
def getAssertCallSite (M : Module) (func : Function) : List Instruction :=
  func.blocks.flatMap fun B => B.insts.filter (isAssertCall M)

theorem getAssertCallSite_eq (M : Module) (func : Function) :
    getAssertCallSite M func = func.insts.filter (isAssertCall M) := by
  rw [getAssertCallSite, Function.insts, List.filter_flatMap]

end SnippetsLlvm.MyBase
