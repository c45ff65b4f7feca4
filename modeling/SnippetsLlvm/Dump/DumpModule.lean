import SnippetsLlvm.Ir.Printer
import SnippetsLlvm.Ir.Verifier
import SnippetsLlvm.Library.Emission

/-!
# The IR dump tool

`DumpModulePass` walks over a module and prints every function with its type, and every instruction, with
details for allocations, address computations, phi nodes and calls.  On the way it names values and types
with `getValueStr` and `getTypeStr`, two switches that end the program in their default branch, and casts
the result of `getCalledFunction`, which may be null.

* `TypeHandled` — the types `getTypeStr` has a case for;
* `detail_ok_iff` — the instructions the tool gets through: no `getelementptr`, no phi node, and of the
  calls only the direct ones;
* `runOnModule_completes_iff` — **the tool completes exactly on the modules whose functions have handled
  types and only such instructions**.
-/

namespace SnippetsLlvm.DumpModule

open SnippetsLlvm.Ir SnippetsLlvm.Library

variable (P : Printer) (M : Module)

/-! ### Naming values and types -/

/-- The class of a global in `Value::ValueTy`, when `getValueStr` lists it. -/
def globalValStr : GlobalKind → Option String
  | .function => some "Value::FunctionVal"
  | .alias => some "Value::GlobalAliasVal"
  | .variable => some "Value::GlobalVariableVal"
  | .ifunc => none

/-- The class of a constant in `Value::ValueTy`, when `getValueStr` lists it. -/
def constantValStr : Constant → Option String
  | .global _ k _ => globalValStr k
  | .undef _ => some "Value::UndefValueVal"
  | .blockAddress _ _ => some "Value::BlockAddressVal"
  | .expr _ _ _ => some "Value::ConstantExprVal"
  | .aggregateZero _ => some "Value::ConstantAggregateZeroVal"
  | .dataArray _ _ => some "Value::ConstantDataArrayVal"
  | .dataVector _ _ => some "Value::ConstantDataVectorVal"
  | .int _ _ => some "Value::ConstantIntVal"
  | .fp _ _ => some "Value::ConstantFPVal"
  | .array _ _ => some "Value::ConstantArrayVal"
  | .struct _ _ => some "Value::ConstantStructVal"
  | .vector _ _ => some "Value::ConstantVectorVal"
  | .pointerNull _ => some "Value::ConstantPointerNullVal"
  | .poison _ | .tokenNone | .dsoLocalEquivalent _ _ | .noCFI _ _ => none

/-- The case of `getValueStr` a value falls into.  An instruction has its own identifier beyond the listed
ones, `InstructionVal` plus its opcode, and falls into none. -/
def valueStr : Value → Option String
  | .arg _ _ => some "Value::ArgumentVal"
  | .block _ => some "Value::BasicBlockVal"
  | .const c => constantValStr c
  | .inlineAsm _ _ _ _ _ _ => some "Value::InlineAsmVal"
  | .inst _ _ _ | .metadata _ => none

/-- `getValueStr`. -/
def getValueStr (F : Function) (v : Value) : Except Failure String :=
  match valueStr v with
  | some str => .ok str
  | none => .error (.reportFatalError ("unimplemented value for " ++ P.value F v))

/-- The case of `getTypeStr` a type falls into. -/
def typeStr : TypeID → Option String
  | .voidTyID => some "Type::VoidTyID"
  | .floatTyID => some "Type::FloatTyID"
  | .doubleTyID => some "Type::DoubleTyID"
  | .x86Fp80TyID => some "Type::X86_FP80TyID"
  | .fp128TyID => some "Type::FP128TyID"
  | .ppcFp128TyID => some "Type::PPC_FP128TyID"
  | .labelTyID => some "Type::LabelTyID"
  | .metadataTyID => some "Type::MetadataTyID"
  | .x86MmxTyID => some "Type::X86_MMXTyID"
  | .integerTyID => some "Type::IntegerTyID"
  | .functionTyID => some "Type::FunctionTyID"
  | .structTyID => some "Type::StructTyID"
  | .arrayTyID => some "Type::ArrayTyID"
  | .pointerTyID => some "Type::PointerTyID"
  | .halfTyID => some "Type::HalfTyID"
  | .bfloatTyID | .x86AmxTyID | .tokenTyID | .fixedVectorTyID | .scalableVectorTyID => none

/-- `getTypeStr`. -/
def getTypeStr (ty : Ty) : Except Failure String :=
  match typeStr ty.getTypeID with
  | some str => .ok str
  | none => .error (.reportFatalError ("Not handled type: " ++ P.type ty))

/-! ### The details of an instruction -/

/-- What `_dump_CallInst` prints of an intrinsic, by the order of its casts. -/
def intrinsicStr : Intrinsic → String
  | .constrainedFP _ => "constrainedFPIntrinsic\n"
  | .dbgDeclare | .dbgValue | .dbgLabel | .dbgAddr => "DbgInfo\n"
  | .vaCopy => "va_copy\n"
  | .vaEnd => "va_end\n"
  | .vaStart => "va_start\n"
  | .memset => "memset\n"
  | .memcpy | .memcpyInline => "memcpy\n"
  | .memmove => "memmove\n"
  | .memcpyElementUnorderedAtomic => "automic_memcpy\n"
  | .memmoveElementUnorderedAtomic => "automic_memmove\n"
  | .memsetElementUnorderedAtomic | .gcRoot | .gcRead | .gcWrite | .gcStatepoint | .gcResult
  | .other _ => "Untracked IntrinsicInst\n"

/-- `DumpModulePass::_dump_CallInst`.  The first cast, to `InlineAsm`, is applied to the result of
`getCalledFunction`: it fails on null, and a function is never inline assembly. -/
def dumpCallInst (I : Instruction) : Except Failure (List String) :=
  match M.getCalledFunction I with
  | none => .error .nullDereference
  | some callee =>
    .ok ["callee: " ++ callee.name ++ "\t" ++
      match callee.intrinsic with
      | some ii => intrinsicStr ii
      | none => "\n"]

/-- The predecessors of a block, one entry for each edge. -/
def predecessors (F : Function) (b : ℕ) : List BasicBlock :=
  F.blocks.flatMap fun B => (B.successors.filter (· = b)).map fun _ => B

/-- `PHINode::getBasicBlockIndex`. -/
def getBasicBlockIndex (incoming : List ℕ) (b : ℕ) : ℤ :=
  match incoming.findIdx? (· = b) with
  | some i => i
  | none => -1

/-- `DumpModulePass::_dump_PHINode`. -/
def dumpPHINode (F : Function) (B : BasicBlock) (I : Instruction) (incoming : List ℕ) :
    Except Failure (List String) :=
  (getValueStr P F I.ref).map fun str =>
    (str ++ " incoming: " ++ toString incoming.length ++ "\n") ::
      (predecessors F B.id).map fun predBB =>
        "\tindex of " ++ predBB.name ++ " is " ++ toString (getBasicBlockIndex incoming predBB.id) ++ "\n"

/-- The branch of `runOnBasicBlock` for a `getelementptr`. -/
def dumpGetElementPtr (F : Function) (I : Instruction) : Except Failure (List String) :=
  (getValueStr P F I.ref).map fun str =>
    [str ++ " type: " ++ P.type I.type ++ "\n",
      "  pointer operand: " ++ String.join (I.operands.head?.toList.map (P.value F)) ++ "\n",
      "  Indices: " ++ String.join (I.operands.tail.map fun v => "[" ++ P.value F v ++ "] ") ++ "\n"]

/-- The detail lines of an instruction. -/
def detail (F : Function) (B : BasicBlock) (I : Instruction) : Except Failure (List String) :=
  match I.opcode with
  | .alloca ty => .ok ["AllocaInst type: " ++ P.type ty ++ " allocSize=" ++
      toString (P.sizeInBits ty) ++ " bits\n"]
  | .getElementPtr _ => dumpGetElementPtr P F I
  | .phi incoming => dumpPHINode P F B I incoming
  | .call _ _ => dumpCallInst M I
  | _ => .ok []

/-- One instruction. -/
def dumpInst (F : Function) (B : BasicBlock) (I : Instruction) : Except Failure (List String) :=
  (detail P M F B I).map fun lines => ("INST: " ++ P.instruction F I ++ "\n") :: lines

/-! ### The walk -/

/-- `ppName`. -/
def ppName (name : String) : String := if name = "" then "<NONE>" else name

/-- `DumpModulePass::runOnBasicBlock`. -/
def runOnBasicBlock (F : Function) (B : BasicBlock) : Except Failure (List String) :=
  (emitAll (dumpInst P M F B) B.insts).map fun lines =>
    ("---> BB (in " ++ F.name ++ "): " ++ ppName B.name ++ "\n") :: lines

/-- `DumpModulePass::_dumpFnTy`.  The names of the types are computed and not printed. -/
def dumpFnTy (F : Function) : Except Failure (List String) :=
  (getTypeStr P F.type.toTy).bind fun _ => (getTypeStr P F.type.ret).bind fun _ =>
    (emitAll (fun p : Ty × ℕ => (getTypeStr P p.1).map fun _ => [" " ++ toString (p.2 + 1) ++ ") "])
      F.type.params.zipIdx).map fun params =>
        " retType: " :: ("ParameterTypes (" ++ toString F.type.params.length ++ "):\n") :: params

/-- The linkage predicates `dumpLinkageType` prints, in its order. -/
def linkagePreds : List (String × (Linkage → Bool)) :=
  let isLinkOnce : Linkage → Bool := fun l => l = .linkOnceAny || l = .linkOnceODR
  let isWeak : Linkage → Bool := fun l => l = .weakAny || l = .weakODR
  [("ExternalLinkage", (· = .external)), ("AvailableExternallyLinkage", (· = .availableExternally)),
    ("LinkOnceLinkage", isLinkOnce), ("WeakLinkage", isWeak), ("AppendingLinkage", (· = .appending)),
    ("InternalLinkage", (· = .internal)), ("PrivateLinkage", (· = .priv)),
    ("PrivateLinkage", (· = .priv)), ("LocalLinkage", Linkage.isLocal),
    ("ExternalLinkage", (· = .external)), ("CommonLinkage", (· = .common)),
    ("DiscardableIfUnused", fun l => isLinkOnce l || l.isLocal || l = .availableExternally),
    ("WeakForLinker", fun l => isWeak l || isLinkOnce l || l = .common || l = .externalWeak)]

/-- A boolean as a stream prints it. -/
def boolStr (b : Bool) : String := if b then "1" else "0"

/-- `dumpGVInfo`. -/
def dumpGVInfo (F : Function) : String :=
  "isMaterializable: " ++ boolStr (P.isMaterializable F) ++ "; " ++
    String.join (linkagePreds.map fun p => p.1 ++ "=" ++ boolStr (p.2 F.linkage) ++ "; ") ++ "\n"

/-- `DumpModulePass::runOnFunc`. -/
def runOnFunc (F : Function) : Except Failure (List String) :=
  (dumpFnTy P F).bind fun fnTy => (emitAll (runOnBasicBlock P M F) F.blocks).map fun blocks =>
    ("\n===> FUNC: " ++ F.name ++ "\n") :: fnTy ++ dumpGVInfo P F :: blocks

/-- What `printGlobalValues` and `printNMetadata` print. -/
def footer : List String :=
  ["\n===> global variables:", "\n===> global alias:", "\n===> ifuncs:", "\n===> NMetadate:"]

/-- **`DumpModulePass::runOnModule`**: the text printed, the value returned and the module left. -/
def runOnModule : Except Failure (List String × Bool × Module) :=
  (emitAll (runOnFunc P M) M.functions).map fun lines => (lines ++ footer, false, M)

/-! ### What the tool gets through -/

/-- The types `getTypeStr` has a case for. -/
def TypeHandled (ty : Ty) : Prop :=
  ty.getTypeID ≠ .bfloatTyID ∧ ty.getTypeID ≠ .x86AmxTyID ∧ ty.getTypeID ≠ .tokenTyID ∧
    ty.getTypeID ≠ .fixedVectorTyID ∧ ty.getTypeID ≠ .scalableVectorTyID

/-- The callee operand is itself a function of the type of the call. -/
def DirectCall (I : Instruction) : Prop :=
  ∃ g ty F, I.calledOperand = some (.const (.global g .function ty)) ∧ M.function? g = some F ∧
    some F.type = I.callType

/-- The instructions the tool gets through. -/
def Dumpable (I : Instruction) : Prop :=
  match I.opcode with
  | .getElementPtr _ | .phi _ => False
  | .call _ _ => DirectCall M I
  | _ => True

variable {P M}

theorem getTypeStr_ok_iff {ty : Ty} : Succeeds (getTypeStr P ty) ↔ TypeHandled ty := by
  rw [getTypeStr, TypeHandled]
  cases ty.getTypeID <;> simp [typeStr]

/-- No instruction falls into a case of `getValueStr`. -/
theorem getValueStr_inst {F : Function} {I : Instruction} : ¬ Succeeds (getValueStr P F I.ref) := by
  intro h
  obtain ⟨str, h⟩ := h
  cases h

theorem getCalledFunction_isSome_iff {I : Instruction} :
    (∃ F, M.getCalledFunction I = some F) ↔ DirectCall M I := by
  rw [DirectCall, Module.getCalledFunction]
  split
  · rename_i g ty hop
    constructor
    · rintro ⟨F, hF⟩
      obtain ⟨hF, hty⟩ := Option.filter_eq_some_iff.mp hF
      exact ⟨g, ty, F, hop, hF, by simpa using hty⟩
    · rintro ⟨g', ty', F, hop', hF, hty⟩
      rw [hop, Option.some.injEq] at hop'
      cases hop'
      exact ⟨F, Option.filter_eq_some_iff.mpr ⟨hF, by simpa using hty⟩⟩
  · rename_i hop
    constructor
    · rintro ⟨F, hF⟩
      cases hF
    · rintro ⟨g, ty, F, hop', -⟩
      exact absurd hop' (hop g ty)

/-- **The instructions the tool gets through.** -/
theorem detail_ok_iff {F : Function} {B : BasicBlock} {I : Instruction} :
    Succeeds (detail P M F B I) ↔ Dumpable M I := by
  cases hop : I.opcode with
  | getElementPtr ty =>
    simp only [detail, Dumpable, hop, dumpGetElementPtr, succeeds_map, iff_false]
    exact getValueStr_inst
  | phi incoming =>
    simp only [detail, Dumpable, hop, dumpPHINode, succeeds_map, iff_false]
    exact getValueStr_inst
  | call ft mt =>
    simp only [detail, Dumpable, hop, ← getCalledFunction_isSome_iff, dumpCallInst]
    cases M.getCalledFunction I <;> simp
  | _ => simp [detail, Dumpable, hop]

theorem dumpFnTy_ok_iff {F : Function} : Succeeds (dumpFnTy P F) ↔
    TypeHandled F.type.ret ∧ ∀ t ∈ F.type.params, TypeHandled t := by
  have hfn : Succeeds (getTypeStr P F.type.toTy) :=
    getTypeStr_ok_iff.mpr (by simp [TypeHandled, FunctionType.toTy, Ty.getTypeID])
  obtain ⟨str, hstr⟩ := hfn
  have hparams : (∀ p ∈ F.type.params.zipIdx, Succeeds (getTypeStr P p.1)) ↔
      ∀ t ∈ F.type.params, TypeHandled t := by
    rw [forall_mem_zipIdx (p := fun t => Succeeds (getTypeStr P t))]
    simp only [getTypeStr_ok_iff]
  rw [dumpFnTy, hstr, succeeds_bind]
  simp only [Except.ok.injEq, exists_eq_left', succeeds_bind, succeeds_map, emitAll_ok_iff, hparams,
    exists_and_right]
  rw [← getTypeStr_ok_iff (P := P)]
  rfl

/-- The lines of the type of a function. -/
def typeLines (F : Function) : List String :=
  " retType: " :: ("ParameterTypes (" ++ toString F.type.params.length ++ "):\n") ::
    F.type.params.zipIdx.map fun p => " " ++ toString (p.2 + 1) ++ ") "

theorem emitted_dumpFnTy {F : Function} (h : Succeeds (dumpFnTy P F)) :
    emitted (dumpFnTy P F) = typeLines F := by
  obtain ⟨_, hfn, h⟩ := succeeds_bind.mp h
  obtain ⟨_, hret, h⟩ := succeeds_bind.mp h
  rw [succeeds_map] at h
  rw [dumpFnTy, hfn]
  show emitted ((getTypeStr P F.type.ret).bind _) = _
  rw [hret]
  show emitted ((emitAll _ F.type.params.zipIdx).map _) = _
  rw [emitAll_eq h, typeLines]
  show _ :: _ :: _ = _ :: _ :: _
  rw [← List.flatMap_singleton' (l := List.map _ _), List.flatMap_map]
  refine congrArg (fun l => _ :: _ :: l) (List.flatMap_congr fun p hp => ?_)
  obtain ⟨str, hstr⟩ := succeeds_map.mp (emitAll_ok_iff.mp h p hp)
  rw [hstr]
  rfl

/-! ### The text of a complete dump -/

variable (P M)

/-- The line of a call of the function `G`. -/
def calleeLine (G : Function) : String :=
  "callee: " ++ G.name ++ "\t" ++ (G.intrinsic.map intrinsicStr).getD "\n"

/-- The details of an instruction the tool gets through: the type and the size of an allocation, the function a direct
call calls. -/
def detailLines (I : Instruction) : List String :=
  match I.opcode, I.calledOperand with
  | .alloca ty, _ =>
    ["AllocaInst type: " ++ P.type ty ++ " allocSize=" ++ toString (P.sizeInBits ty) ++ " bits\n"]
  | .call _ _, some (.const (.global g .function _)) => (M.function? g).toList.map calleeLine
  | _, _ => []

/-- The lines of an instruction: the instruction itself and its details. -/
def instLines (F : Function) (I : Instruction) : List String :=
  ("INST: " ++ P.instruction F I ++ "\n") :: detailLines P M I

/-- The lines of a block: its header, and every instruction once, in order. -/
def blockLines (F : Function) (B : BasicBlock) : List String :=
  ("---> BB (in " ++ F.name ++ "): " ++ ppName B.name ++ "\n") ::
    B.insts.flatMap (instLines P M F)

/-- The lines of a function: its header, its type, its linkage, and every block once, in order. -/
def funcLines (F : Function) : List String :=
  ("\n===> FUNC: " ++ F.name ++ "\n") :: typeLines F ++ dumpGVInfo P F ::
    F.blocks.flatMap (blockLines P M F)

/-- The text of a complete dump. -/
def expected : List String := M.functions.flatMap (funcLines P M) ++ footer

variable {P M}

theorem runOnBasicBlock_ok_iff {F : Function} {B : BasicBlock} :
    Succeeds (runOnBasicBlock P M F B) ↔ ∀ I ∈ B.insts, Dumpable M I := by
  simp only [runOnBasicBlock, succeeds_map, emitAll_ok_iff, dumpInst, detail_ok_iff]

/-- What the code prints of an instruction it gets through. -/
theorem detail_eq {F : Function} {B : BasicBlock} {I : Instruction} (h : Dumpable M I) :
    detail P M F B I = .ok (detailLines P M I) := by
  cases hop : I.opcode with
  | getElementPtr ty => simp [Dumpable, hop] at h
  | phi incoming => simp [Dumpable, hop] at h
  | call ft mt =>
    simp only [Dumpable, hop] at h
    obtain ⟨g, ty, G, hcallee, hG, hty⟩ := h
    have hcalled : M.getCalledFunction I = some G := by
      simp [Module.getCalledFunction, hcallee, hG, hty]
    simp only [detail, hop, dumpCallInst, hcalled, detailLines, hcallee, hG, Option.toList_some, List.map_cons,
      List.map_nil, calleeLine]
    cases G.intrinsic <;> rfl
  | _ => simp [detail, detailLines, hop]

theorem emitted_runOnBasicBlock {F : Function} {B : BasicBlock}
    (h : Succeeds (runOnBasicBlock P M F B)) :
    emitted (runOnBasicBlock P M F B) = blockLines P M F B := by
  rw [runOnBasicBlock, succeeds_map] at h
  rw [runOnBasicBlock, emitAll_eq h, blockLines]
  refine congrArg (List.cons _) (List.flatMap_congr fun I hI => ?_)
  have hdump := detail_ok_iff.mp (succeeds_map.mp (emitAll_ok_iff.mp h I hI))
  rw [dumpInst, instLines, detail_eq hdump]
  rfl

theorem runOnFunc_ok_iff {F : Function} : Succeeds (runOnFunc P M F) ↔
    (TypeHandled F.type.ret ∧ ∀ t ∈ F.type.params, TypeHandled t) ∧
      ∀ I ∈ F.insts, Dumpable M I := by
  rw [runOnFunc, succeeds_bind, ← dumpFnTy_ok_iff (P := P)]
  simp only [succeeds_map, emitAll_ok_iff, runOnBasicBlock_ok_iff, exists_and_right,
    Function.insts, List.forall_mem_flatMap]
  rfl

theorem emitted_runOnFunc {F : Function} (h : Succeeds (runOnFunc P M F)) :
    emitted (runOnFunc P M F) = funcLines P M F := by
  rw [runOnFunc] at h
  obtain ⟨fnTy, hfnTy, h⟩ := succeeds_bind.mp h
  rw [succeeds_map] at h
  have htype := emitted_dumpFnTy ⟨fnTy, hfnTy⟩
  rw [hfnTy, emitted_ok] at htype
  rw [runOnFunc, hfnTy, htype, emitAll_eq h, funcLines]
  show (_ :: typeLines F) ++ (dumpGVInfo P F :: _) = _
  refine congrArg (fun l => _ ++ (dumpGVInfo P F :: l)) (List.flatMap_congr fun B hB => ?_)
  exact emitted_runOnBasicBlock (emitAll_ok_iff.mp h B hB)

/-- **The dump is complete exactly when every function has handled types and only instructions the tool
gets through**; the text then has every instruction of every block of every function once, in order, and
the module is left as it is. -/
theorem runOnModule_completes_iff (P : Printer) (M : Module) :
    runOnModule P M = .ok (expected P M, false, M) ↔
      (∀ F ∈ M.functions, TypeHandled F.type.ret ∧ ∀ t ∈ F.type.params, TypeHandled t) ∧
        ∀ F ∈ M.functions, ∀ I ∈ F.insts, Dumpable M I := by
  rw [← forall₂_and]
  simp only [← runOnFunc_ok_iff (P := P), ← emitAll_ok_iff]
  constructor
  · intro h
    exact succeeds_map.mp ⟨_, h⟩
  · intro h
    rw [runOnModule, emitAll_eq h, expected]
    refine congrArg (fun l => Except.ok (l ++ footer, false, M)) (List.flatMap_congr fun F hF => ?_)
    exact emitted_runOnFunc (emitAll_ok_iff.mp h F hF)

/-! ### A module that stops the dump -/

/-- `int second(int *p) { return p[1]; }`. -/
def second : Function :=
  ⟨0, "second", ⟨.i32, [.pointer .i32 0], false⟩, .external, ⟨[], []⟩, false, 0, none, none, none, none,
    [⟨0, "entry", [⟨0, .getElementPtr .i32, .pointer .i32 0,
        [.arg 0 (.pointer .i32 0), .const (.int 64 1)], false⟩,
      ⟨1, .load, .i32, [.inst 0 (.getElementPtr .i32) (.pointer .i32 0)], false⟩,
      ⟨2, .ret, .void, [.inst 1 .load .i32], false⟩]⟩], 3, 1⟩

/-- The module of `second`. -/
def secondModule : Module := ⟨[second], [], [], [], [], 1, 0⟩

/-- The first `getelementptr` ends the dump of a well-formed module. -/
theorem runOnModule_secondModule : secondModule.WellFormed ∧ ∀ P,
    runOnModule P secondModule = .error (.reportFatalError
      ("unimplemented value for " ++ P.value second (.inst 0 (.getElementPtr .i32) (.pointer .i32 0)))) ∧
      runOnModule P secondModule ≠ .ok (expected P secondModule, false, secondModule) := by
  refine ⟨Module.Verified.wellFormed (by decide), fun P => ⟨rfl, ?_⟩⟩
  intro h
  cases h

end SnippetsLlvm.DumpModule
