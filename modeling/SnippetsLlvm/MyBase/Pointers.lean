import SnippetsLlvm.MyBase.Calls

/-!
# Pointer manipulation

`isPointerManipulation` goes through the classes of instructions that make or write pointers and ends the
program when another one has a pointer as its result.  Two notions of pointer meet in it: the type of a
value, and `isPointerValue`, which for an allocation, a global variable or a function asks what is behind
the address.

* `isPointerValue`, `isPointerManipulation` — the functions;
* `MissesNoPointer` — what the second one is for;
* `Recognised` — the instructions it gets right;
* `missesNoPointer_iff` — **it is total and misses no pointer exactly on these**.
-/

namespace SnippetsLlvm.MyBase

open SnippetsLlvm.Ir

/-! ### The functions -/

/-- Whether a value is an `AllocaInst`, a `GlobalVariable` or a `Function`. -/
def isAddress : Value → Bool
  | .inst _ (.alloca _) _ => true
  | .const (.global _ .variable _) | .const (.global _ .function _) => true
  | _ => false

/-- `isTrivialPointer`. -/
def isTrivialPointer (v : Value) : Except Failure Bool :=
  if isAddress v then
    if v.getType.isPointerTy then .ok true else .error (.assertFailed "V->getType()->isPointerTy()")
  else .ok false

/-- **`isPointerValue`.** -/
def isPointerValue (v : Value) : Except Failure Bool :=
  (isTrivialPointer v).bind fun trivial =>
    if trivial then
      match v.getType.pointee with
      | some elem => .ok elem.isPointerTy
      | none => .error (.castFailed "PointerType")
    else .ok v.getType.isPointerTy

/-- The end of `isPointerManipulation`, for the instructions no branch returned on. -/
def fallThrough (I : Instruction) : Except Failure Bool :=
  (isPointerValue I.ref).bind fun b =>
    if b then .error (.reportFatalError "Instruction can't be a Pointer Value") else .ok false

/-- The branch for a load. -/
def loadBranch (I : Instruction) : Except Failure Bool :=
  match (I.operands.head?.map Value.getType).bind Ty.pointee with
  | some elem => if elem.isPointerTy then .ok true else fallThrough I
  | none => .error .nullDereference

/-- Whether the first operand of an instruction has a pointer type. -/
def operand0IsPointer (I : Instruction) : Bool := (I.operands.head?.map Value.getType).any Ty.isPointerTy

variable (M : Module)

/-- **`isPointerManipulation`.** -/
def isPointerManipulation (I : Instruction) : Except Failure Bool :=
  match I.opcode with
  | .alloca _ => .ok false
  | .load => loadBranch I
  | .store => if operand0IsPointer I then .ok true else fallThrough I
  | .cast .bitCast => if I.type.isPointerTy && operand0IsPointer I then .ok true else fallThrough I
  | .getElementPtr _ => .ok true
  | .call _ _ => if isInlineAsm I then .ok false else .ok (isFnMemOps (M.getCalledFunction I))
  | .phi _ => isPointerValue I.ref
  | .extractValue _ => isPointerValue I.ref
  | .insertValue _ =>
    match I.operands[1]? with
    | some v => isPointerValue v
    | none => .error (.assertFailed "getOperand() out of range!")
  | .cast .intToPtr => .ok true
  | .select => (isPointerValue I.ref).bind fun b => if b then .ok true else fallThrough I
  | _ => fallThrough I

/-! ### What it is for -/

/-- The value a store or an insertion writes. -/
def writtenValue (I : Instruction) : Option Value :=
  match I.opcode with
  | .store => I.operands[0]?
  | .insertValue _ => I.operands[1]?
  | _ => none

/-- The instruction has a pointer as its result or writes one. -/
def MakesPointer (I : Instruction) : Prop :=
  I.type.isPointerTy = true ∨ ∃ v, writtenValue I = some v ∧ v.getType.isPointerTy = true

/-- An allocation or a call. -/
def isAllocaOrCall (I : Instruction) : Bool :=
  match I.opcode with
  | .alloca _ | .call _ _ => true
  | _ => false

/-- `isPointerManipulation` returns, and misses no pointer. -/
structure MissesNoPointer (I : Instruction) : Prop where
  total : ∃ b, isPointerManipulation M I = .ok b
  complete : isAllocaOrCall I = false → MakesPointer I → isPointerManipulation M I = .ok true

/-- The typing rules of the two instructions that `Instruction.WellTyped` leaves open: a cast of the bits
has one operand, and an insertion has an aggregate and a value for it, and is an aggregate. -/
def AggregateTyped (I : Instruction) : Prop :=
  match I.opcode with
  | .cast .bitCast => ∃ v, I.operands = [v]
  | .insertValue _ => ∃ agg v, I.operands = [agg, v] ∧ agg.getType = I.type ∧ I.type.isPointerTy = false
  | _ => True

/-- The classes of instructions in which a pointer result is looked for. -/
def hasPointerBranch (I : Instruction) : Bool :=
  match I.opcode with
  | .alloca _ | .load | .getElementPtr _ | .call _ _ | .phi _ | .extractValue _ | .cast .intToPtr
  | .select => true
  | .cast .bitCast => operand0IsPointer I
  | _ => false

/-- **The instructions the function gets right**: one with a pointer as its result belongs to a class that
is looked at, and an address that is inserted into an aggregate is the address of a pointer. -/
structure Recognised (I : Instruction) : Prop where
  result : I.type.isPointerTy = true → hasPointerBranch I = true
  inserted : ∀ idxs, I.opcode = .insertValue idxs → ∀ v, I.operands[1]? = some v → isAddress v = true →
    v.getType.pointee.any Ty.isPointerTy = true

/-! ### Pointer values -/

/-- An allocation, a global variable or a function has a pointer type. -/
def AddressTyped (v : Value) : Prop := isAddress v = true → ∃ elem a, v.getType = .pointer elem a

/-- What `isPointerValue` returns. -/
theorem isPointerValue_eq {v : Value} (hv : AddressTyped v) : isPointerValue v =
    .ok (if isAddress v then v.getType.pointee.any Ty.isPointerTy else v.getType.isPointerTy) := by
  cases haddr : isAddress v with
  | false =>
    rw [isPointerValue, isTrivialPointer, haddr]
    rfl
  | true =>
    obtain ⟨elem, a, hty⟩ := hv haddr
    rw [isPointerValue, isTrivialPointer, haddr, hty]
    rfl

/-- In a well-formed module the operands of an instruction that are addresses have pointer types. -/
theorem addressTyped_of_mem {M : Module} (hM : M.WellFormed) {F : Function} (hF : F ∈ M.functions)
    {I : Instruction} (hI : I ∈ F.insts) {v : Value} (hv : v ∈ I.operands) : AddressTyped v := by
  intro haddr
  have hwf := hM.functions F hF
  cases v with
  | inst d op ty =>
    obtain ⟨J, hJ, -, hop, hty⟩ := hwf.localRefs I hI _ hv
    cases op with
    | alloca t =>
      have htyped := hwf.typed J hJ
      rw [Instruction.WellTyped, hop] at htyped
      obtain ⟨a, ha⟩ := htyped
      exact ⟨t, a, hty.symm.trans ha⟩
    | _ => cases haddr
  | const c =>
    cases c with
    | global g k ty =>
      obtain ⟨V, -, hV⟩ := (hwf.globalRefs I hI _ hv).1 g k ty rfl
      have hty : V.getType = ty := by
        rw [GlobalValue.ref, Constant.global.injEq] at hV
        exact hV.2.2
      have hptr : ∃ elem a, V.getType = .pointer elem a := by
        cases V <;> exact ⟨_, _, rfl⟩
      rwa [hty] at hptr
    | _ => cases haddr
  | _ => cases haddr

/-- The result of an instruction that is no allocation is a pointer value when its type is a pointer type. -/
theorem isPointerValue_ref {I : Instruction} (h : ∀ ty, I.opcode ≠ .alloca ty) :
    isPointerValue I.ref = .ok I.type.isPointerTy := by
  have haddr : isAddress I.ref = false := by
    rw [Instruction.ref]
    cases hop : I.opcode with
    | alloca ty => exact absurd hop (h ty)
    | _ => rfl
  rw [isPointerValue_eq (by rw [AddressTyped, haddr]; intro h; cases h), haddr]
  rfl

theorem fallThrough_eq {I : Instruction} (h : ∀ ty, I.opcode ≠ .alloca ty) : fallThrough I =
    if I.type.isPointerTy then .error (.reportFatalError "Instruction can't be a Pointer Value")
    else .ok false := by
  rw [fallThrough, isPointerValue_ref h]
  rfl

/-- A result that is a pointer, or the end of the function. -/
theorem pointer_or_fallThrough {I : Instruction} (h : ∀ ty, I.opcode ≠ .alloca ty) :
    (if I.type.isPointerTy then Except.ok true else fallThrough I) = .ok I.type.isPointerTy := by
  rw [fallThrough_eq h]
  cases I.type.isPointerTy <;> rfl

/-! ### The branches -/

/-- An allocation or a call is right whatever the function returns. -/
theorem missesNoPointer_allocaOrCall {M : Module} {I : Instruction} {b : Bool}
    (hcall : isAllocaOrCall I = true) (hrun : isPointerManipulation M I = .ok b) : MissesNoPointer M I := by
  refine ⟨⟨b, hrun⟩, fun hplain => ?_⟩
  rw [hcall] at hplain
  cases hplain

/-- A branch that always returns true. -/
theorem missesNoPointer_of_true {M : Module} {I : Instruction}
    (hrun : isPointerManipulation M I = .ok true) : MissesNoPointer M I :=
  ⟨⟨true, hrun⟩, fun _ _ => hrun⟩

/-- A branch that returns true on a pointer result and falls through otherwise. -/
theorem missesNoPointer_of_result {M : Module} {I : Instruction} (hwritten : writtenValue I = none)
    (hrun : isPointerManipulation M I = .ok I.type.isPointerTy) : MissesNoPointer M I := by
  refine ⟨⟨_, hrun⟩, fun _ hmakes => ?_⟩
  rcases hmakes with hres | ⟨v, hv, -⟩
  · rw [hrun, hres]
  · rw [hwritten] at hv
    cases hv

/-- An instruction without a branch is right when its result is no pointer. -/
theorem missesNoPointer_fallThrough {M : Module} {I : Instruction} (h : ∀ ty, I.opcode ≠ .alloca ty)
    (hwritten : writtenValue I = none) (hrun : isPointerManipulation M I = fallThrough I) :
    MissesNoPointer M I ↔ I.type.isPointerTy = false := by
  rw [fallThrough_eq h] at hrun
  constructor
  · intro hmiss
    obtain ⟨b, hb⟩ := hmiss.total
    rw [hrun] at hb
    by_contra hptr
    rw [if_pos (by simpa using hptr)] at hb
    cases hb
  · intro hptr
    rw [hptr] at hrun
    refine missesNoPointer_of_result hwritten ?_
    rw [hrun, hptr]
    rfl

/-- A store is right. -/
theorem missesNoPointer_store {M : Module} {I : Instruction} (hop : I.opcode = .store)
    (hI : I.WellTyped) : MissesNoPointer M I := by
  rw [Instruction.WellTyped, hop] at hI
  obtain ⟨v, p, a, hoperands, -, hvoid⟩ := hI
  have hrun : isPointerManipulation M I = .ok v.getType.isPointerTy := by
    have hfall := fallThrough_eq (I := I) (by rw [hop]; intro ty h; cases h)
    rw [hvoid] at hfall
    rw [isPointerManipulation, hop]
    show (if operand0IsPointer I then Except.ok true else fallThrough I) = _
    rw [operand0IsPointer, hoperands, hfall]
    show (if v.getType.isPointerTy then Except.ok true else Except.ok false) = _
    cases v.getType.isPointerTy <;> rfl
  refine ⟨⟨_, hrun⟩, fun _ hmakes => ?_⟩
  rcases hmakes with hres | ⟨w, hw, hptr⟩
  · rw [hvoid] at hres
    cases hres
  · rw [writtenValue, hop, hoperands] at hw
    cases hw
    rw [hrun, hptr]

/-- A load is right. -/
theorem missesNoPointer_load {M : Module} {I : Instruction} (hop : I.opcode = .load)
    (hI : I.WellTyped) : MissesNoPointer M I := by
  rw [Instruction.WellTyped, hop] at hI
  obtain ⟨p, a, hoperands, hp⟩ := hI
  refine missesNoPointer_of_result (by rw [writtenValue, hop]) ?_
  rw [isPointerManipulation, hop]
  show loadBranch I = _
  rw [loadBranch, hoperands, List.head?_cons, Option.map_some, Option.bind_some, hp]
  exact pointer_or_fallThrough (by simp [hop])

/-- A selection is right. -/
theorem missesNoPointer_select {M : Module} {I : Instruction} (hop : I.opcode = .select) :
    MissesNoPointer M I := by
  refine missesNoPointer_of_result (by rw [writtenValue, hop]) ?_
  rw [isPointerManipulation, hop]
  show ((isPointerValue I.ref).bind fun b => if b then Except.ok true else fallThrough I) = _
  rw [isPointerValue_ref (by simp [hop])]
  exact pointer_or_fallThrough (by simp [hop])

/-- A branch that looks at the instruction itself is right. -/
theorem missesNoPointer_ref {M : Module} {I : Instruction} (halloca : ∀ ty, I.opcode ≠ .alloca ty)
    (hwritten : writtenValue I = none) (hrun : isPointerManipulation M I = isPointerValue I.ref) :
    MissesNoPointer M I :=
  missesNoPointer_of_result hwritten (hrun.trans (isPointerValue_ref halloca))

/-- An insertion is right unless it inserts the address of something that is no pointer. -/
theorem missesNoPointer_insertValue {M : Module} {I : Instruction} {idxs : List ℕ} {agg v : Value}
    (hop : I.opcode = .insertValue idxs) (hoperands : I.operands = [agg, v])
    (hres : I.type.isPointerTy = false) (hv : AddressTyped v) :
    MissesNoPointer M I ↔ (isAddress v = true → v.getType.pointee.any Ty.isPointerTy = true) := by
  have hrun : isPointerManipulation M I =
      .ok (if isAddress v then v.getType.pointee.any Ty.isPointerTy else v.getType.isPointerTy) := by
    rw [isPointerManipulation, hop, ← isPointerValue_eq hv]
    simp only [hoperands]
    rfl
  have hwritten : writtenValue I = some v := by
    rw [writtenValue, hop, hoperands]
    rfl
  have hplain : isAllocaOrCall I = false := by rw [isAllocaOrCall, hop]
  constructor
  · intro hmiss haddr
    obtain ⟨elem, a, hty⟩ := hv haddr
    have htrue := hmiss.complete hplain (.inr ⟨v, hwritten, by rw [hty]; rfl⟩)
    rw [hrun, haddr, if_pos rfl, Except.ok.injEq] at htrue
    exact htrue
  · intro hbehind
    refine ⟨⟨_, hrun⟩, fun _ hmakes => ?_⟩
    rcases hmakes with h | ⟨w, hw, hptr⟩
    · rw [hres] at h
      cases h
    · rw [hwritten] at hw
      cases hw
      rw [hrun]
      cases haddr : isAddress v with
      | true => rw [if_pos rfl, hbehind haddr]
      | false => rw [if_neg Bool.false_ne_true, hptr]

/-! ### The result -/

/-- A class without a branch is recognised when its result is no pointer. -/
theorem recognised_iff_of_noBranch {I : Instruction} (hbranch : hasPointerBranch I = false)
    (hinsert : ∀ idxs, I.opcode ≠ .insertValue idxs) : Recognised I ↔ I.type.isPointerTy = false := by
  constructor
  · intro h
    by_contra hptr
    have hyes := h.result (by simpa using hptr)
    rw [hbranch] at hyes
    cases hyes
  · intro hptr
    refine ⟨fun h => ?_, fun idxs hop => absurd hop (hinsert idxs)⟩
    rw [hptr] at h
    cases h

theorem recognised_of_branch {I : Instruction} (hbranch : hasPointerBranch I = true)
    (hinsert : ∀ idxs, I.opcode ≠ .insertValue idxs) : Recognised I :=
  ⟨fun _ => hbranch, fun idxs hop => absurd hop (hinsert idxs)⟩

/-- **`isPointerManipulation` is total and misses no pointer exactly on the recognised instructions.** -/
theorem missesNoPointer_iff {M : Module} (hM : M.WellFormed) {F : Function} (hF : F ∈ M.functions)
    {I : Instruction} (hI : I ∈ F.insts) (htyped : AggregateTyped I) :
    MissesNoPointer M I ↔ Recognised I := by
  have hwt := (hM.functions F hF).typed I hI
  -- a class without a branch, and a class whose branch decides by the type of the result
  have hnone : hasPointerBranch I = false → (∀ idxs, I.opcode ≠ .insertValue idxs) →
      (∀ ty, I.opcode ≠ .alloca ty) → writtenValue I = none →
      isPointerManipulation M I = fallThrough I → (MissesNoPointer M I ↔ Recognised I) := by
    intro hbranch hinsert halloca hwritten hrun
    rw [missesNoPointer_fallThrough halloca hwritten hrun, recognised_iff_of_noBranch hbranch hinsert]
  have hsome : hasPointerBranch I = true → (∀ idxs, I.opcode ≠ .insertValue idxs) →
      MissesNoPointer M I → (MissesNoPointer M I ↔ Recognised I) := by
    intro hbranch hinsert hmiss
    exact iff_of_true hmiss (recognised_of_branch hbranch hinsert)
  cases hop : I.opcode with
  | alloca ty =>
    have hrun : isPointerManipulation M I = .ok false := by rw [isPointerManipulation, hop]
    exact hsome (by rw [hasPointerBranch, hop]) (by simp [hop])
      (missesNoPointer_allocaOrCall (by rw [isAllocaOrCall, hop]) hrun)
  | call ft mt =>
    have hrun : ∃ b, isPointerManipulation M I = .ok b := by
      rw [isPointerManipulation, hop]
      dsimp only
      split
      · exact ⟨_, rfl⟩
      · exact ⟨_, rfl⟩
    obtain ⟨b, hb⟩ := hrun
    exact hsome (by rw [hasPointerBranch, hop]) (by simp [hop])
      (missesNoPointer_allocaOrCall (by rw [isAllocaOrCall, hop]) hb)
  | load =>
    exact hsome (by rw [hasPointerBranch, hop]) (by simp [hop]) (missesNoPointer_load hop hwt)
  | store =>
    refine iff_of_true (missesNoPointer_store hop hwt) ⟨fun h => ?_, by simp [hop]⟩
    rw [Instruction.WellTyped, hop] at hwt
    obtain ⟨v, p, a, -, -, hvoid⟩ := hwt
    rw [hvoid] at h
    cases h
  | getElementPtr ty =>
    exact hsome (by rw [hasPointerBranch, hop]) (by simp [hop])
      (missesNoPointer_of_true (by rw [isPointerManipulation, hop]))
  | phi inc =>
    exact hsome (by rw [hasPointerBranch, hop]) (by simp [hop])
      (missesNoPointer_ref (by simp [hop]) (by rw [writtenValue, hop]) (by rw [isPointerManipulation, hop]))
  | extractValue idxs =>
    exact hsome (by rw [hasPointerBranch, hop]) (by simp [hop])
      (missesNoPointer_ref (by simp [hop]) (by rw [writtenValue, hop]) (by rw [isPointerManipulation, hop]))
  | select => exact hsome (by rw [hasPointerBranch, hop]) (by simp [hop]) (missesNoPointer_select hop)
  | insertValue idxs =>
    rw [AggregateTyped, hop] at htyped
    obtain ⟨agg, v, hoperands, -, hres⟩ := htyped
    have hv : AddressTyped v := addressTyped_of_mem hM hF hI (by rw [hoperands]; simp)
    rw [missesNoPointer_insertValue hop hoperands hres hv]
    constructor
    · intro hbehind
      refine ⟨fun h => ?_, fun idxs' _ w hw => ?_⟩
      · rw [hres] at h
        cases h
      · rw [hoperands] at hw
        cases hw
        exact hbehind
    · intro h
      exact h.inserted idxs hop v (by rw [hoperands]; rfl)
  | cast op =>
    cases op with
    | bitCast =>
      have hrun : isPointerManipulation M I =
          if I.type.isPointerTy && operand0IsPointer I then .ok true else fallThrough I := by
        rw [isPointerManipulation, hop]
      cases hptr : operand0IsPointer I with
      | false =>
        refine hnone (by rw [hasPointerBranch, hop]; exact hptr) (by simp [hop]) (by simp [hop])
          (by rw [writtenValue, hop]) ?_
        rw [hrun, hptr, Bool.and_false]
        rfl
      | true =>
        refine hsome (by rw [hasPointerBranch, hop]; exact hptr) (by simp [hop])
          (missesNoPointer_of_result (by rw [writtenValue, hop]) ?_)
        rw [hrun, hptr, Bool.and_true]
        exact pointer_or_fallThrough (by simp [hop])
    | intToPtr =>
      exact hsome (by rw [hasPointerBranch, hop]) (by simp [hop])
        (missesNoPointer_of_true (by rw [isPointerManipulation, hop]))
    | _ =>
      exact hnone (by rw [hasPointerBranch, hop]) (by simp [hop]) (by simp [hop])
        (by rw [writtenValue, hop]) (by rw [isPointerManipulation, hop])
  | _ =>
    exact hnone (by rw [hasPointerBranch, hop]) (by simp [hop]) (by simp [hop])
      (by rw [writtenValue, hop]) (by rw [isPointerManipulation, hop])

/-! ### A function that keeps the address of a local variable -/

/-- The address of the local variable, put into a struct. -/
def insertAddress : Instruction :=
  ⟨1, .insertValue [0], .struct [.pointer .i32 0],
    [.const (.undef (.struct [.pointer .i32 0])), .inst 0 (.alloca .i32) (.pointer .i32 0)], false⟩

/-- The parameter, frozen. -/
def freezePointer : Instruction :=
  ⟨2, .freeze, .pointer .i32 0, [.arg 0 (.pointer .i32 0)], false⟩

/-- The address of the next element. -/
def nextElement : Instruction :=
  ⟨3, .getElementPtr .i32, .pointer .i32 0,
    [.inst 2 .freeze (.pointer .i32 0), .const (.int 64 1)], false⟩

/-- A function of these instructions. -/
def keepFn : Function :=
  ⟨0, "keep", ⟨.pointer .i32 0, [.pointer .i32 0], false⟩, .external, ⟨[], []⟩, false, 0, none, none, none, none,
    [⟨0, "entry", [⟨0, .alloca .i32, .pointer .i32 0, [.const (.int 32 1)], false⟩, insertAddress,
      freezePointer, nextElement,
      ⟨4, .ret, .void, [.inst 3 (.getElementPtr .i32) (.pointer .i32 0)], false⟩]⟩], 5, 1⟩

/-- The module of `keepFn`. -/
def keepModule : Module := ⟨[keepFn], [], [], [], [], 1, 0⟩

theorem wellFormed_keepModule : keepModule.WellFormed := Module.Verified.wellFormed (by decide)

theorem missesNoPointer_nextElement :
    MissesNoPointer keepModule nextElement ↔ Recognised nextElement :=
  missesNoPointer_iff wellFormed_keepModule (F := keepFn) (by simp [keepModule])
    (by simp [keepFn, Function.insts]) trivial

/-- The fatal report is reached on a frozen pointer, and the address that is inserted is missed. -/
theorem missesNoPointer_keepModule : keepModule.WellFormed ∧
    (freezePointer ∈ keepFn.insts ∧
      isPointerManipulation keepModule freezePointer =
        .error (.reportFatalError "Instruction can't be a Pointer Value") ∧
      ¬ MissesNoPointer keepModule freezePointer) ∧
    insertAddress ∈ keepFn.insts ∧ isPointerManipulation keepModule insertAddress = .ok false ∧
      ¬ MissesNoPointer keepModule insertAddress := by
  refine ⟨wellFormed_keepModule, ⟨by simp [keepFn, Function.insts], rfl, fun h => ?_⟩,
    by simp [keepFn, Function.insts], rfl, fun h => ?_⟩
  · obtain ⟨b, hb⟩ := h.total
    cases hb
  · have htrue := h.complete rfl (.inr ⟨_, rfl, rfl⟩)
    cases htrue

end SnippetsLlvm.MyBase
