import SnippetsLlvm.Ir.Types

/-!
# Values, constants and instructions

A value of the IR is a constant, the result of an instruction, an argument, a basic block, a piece of
inline assembly or a metadata wrapper.  References are by identity and not by name, as pointers to
objects are in the compiler: a global has a number in its module, a block and an instruction a number in
their function, so that renaming a symbol leaves every reference to it alone.  A reference carries the class and the
type of the object it refers to, the two things a pass asks of an operand before it looks at the object.

* `Opcode` — the instruction opcodes, each with the data that is not an operand;
* `Constant.mentions` — the uses a constant makes of a global, through aggregates and expressions;
* `Instruction` — opcode, type and operand list, in the operand order of the compiler: the blocks of a
  conditional branch after its condition, the one taken on false first, the callee after the arguments;
* `Instruction.successors` — where a terminator goes, in the order a walk of the graph meets it.
-/

namespace SnippetsLlvm.Ir

/-! ### Opcodes -/

/-- The two-operand arithmetic and bitwise opcodes. -/
inductive BinOp where
  | add | fadd | sub | fsub | mul | fmul | udiv | sdiv | fdiv | urem | srem | frem
  | shl | lshr | ashr | and | or | xor
deriving DecidableEq, Repr

/-- The cast opcodes. -/
inductive CastOp where
  | trunc | zext | sext | fpToUI | fpToSI | uiToFP | siToFP | fpTrunc | fpExt
  | ptrToInt | intToPtr | bitCast | addrSpaceCast
deriving DecidableEq, Repr

/-- The instruction opcodes, with the parts of an instruction that are not operands. -/
inductive Opcode where
  | ret | br | switch | indirectBr | invoke (fnTy : FunctionType) | resume | unreachable
  | cleanupRet | catchRet | catchSwitch | callBr (fnTy : FunctionType)
  | fneg
  | binary (op : BinOp)
  | alloca (allocated : Ty) | load | store | getElementPtr (source : Ty)
  | fence | cmpXchg | atomicRMW (op : ℕ)
  | cast (op : CastOp)
  | cleanupPad | catchPad
  | icmp (pred : ℕ) | fcmp (pred : ℕ)
  | phi (incoming : List ℕ)
  | call (fnTy : FunctionType) (mustTail : Bool)
  | select | vaArg | extractElement | insertElement | shuffleVector (mask : List ℤ)
  | extractValue (idxs : List ℕ) | insertValue (idxs : List ℕ)
  | landingPad (cleanup : Bool) | freeze
deriving DecidableEq, Repr

/-- `Instruction::isTerminator`. -/
def Opcode.isTerminator : Opcode → Bool
  | .ret | .br | .switch | .indirectBr | .invoke _ | .resume | .unreachable
  | .cleanupRet | .catchRet | .catchSwitch | .callBr _ => true
  | _ => false

/-- `isa<PHINode>`. -/
def Opcode.isPhi : Opcode → Bool
  | .phi _ => true
  | _ => false

/-- `Instruction::isEHPad`. -/
def Opcode.isEHPad : Opcode → Bool
  | .catchSwitch | .catchPad | .cleanupPad | .landingPad _ => true
  | _ => false

/-- Whether the verifier asks for a personality where an opcode stands: at the pads and at a `resume`. -/
def Opcode.needsPersonality : Opcode → Bool
  | .resume => true
  | op => op.isEHPad

/-- `CallInst::isMustTailCall`. -/
def Opcode.isMustTail : Opcode → Bool
  | .call _ mustTail => mustTail
  | _ => false

/-- `isa<CallBase>`. -/
def Opcode.isCallBase : Opcode → Bool
  | .call _ _ | .invoke _ | .callBr _ => true
  | _ => false

/-- `Instruction::isBinaryOp`. -/
def Opcode.isBinaryOp : Opcode → Bool
  | .binary _ => true
  | _ => false

/-- `Instruction::isCast`. -/
def Opcode.isCast : Opcode → Bool
  | .cast _ => true
  | _ => false

/-- Whether an opcode is `Instruction::GetElementPtr`. -/
def Opcode.isGetElementPtr : Opcode → Bool
  | .getElementPtr _ => true
  | _ => false

/-! ### Constants -/

/-- The classes of global values. -/
inductive GlobalKind where
  | function | variable | alias | ifunc
deriving DecidableEq, Repr

/-- A constant of the IR. -/
inductive Constant where
  | int (width : ℕ) (value : ℤ)
  | fp (ty : Ty) (bits : ℕ)
  | pointerNull (ty : Ty)
  | undef (ty : Ty)
  | poison (ty : Ty)
  | aggregateZero (ty : Ty)
  | array (ty : Ty) (elems : List Constant)
  | struct (ty : Ty) (elems : List Constant)
  | vector (ty : Ty) (elems : List Constant)
  | dataArray (ty : Ty) (elems : List ℕ)
  | dataVector (ty : Ty) (elems : List ℕ)
  | tokenNone
  | blockAddress (fn : ℕ) (block : ℕ)
  | expr (op : Opcode) (ty : Ty) (operands : List Constant)
  | global (g : ℕ) (kind : GlobalKind) (ty : Ty)
  | dsoLocalEquivalent (g : ℕ) (ty : Ty)
  | noCFI (g : ℕ) (ty : Ty)
deriving Repr

/-- `Value::getType` of a constant. -/
def Constant.getType : Constant → Ty
  | .int w _ => .integer w
  | .fp ty _ | .pointerNull ty | .undef ty | .poison ty | .aggregateZero ty => ty
  | .array ty _ | .struct ty _ | .vector ty _ => ty
  | .dataArray ty _ | .dataVector ty _ => ty
  | .tokenNone => .prim .token
  | .blockAddress _ _ => .i8Ptr
  | .expr _ ty _ => ty
  | .global _ _ ty | .dsoLocalEquivalent _ ty | .noCFI _ ty => ty

mutual
/-- Whether a constant uses the global `g`, directly or in a part of it. -/
def Constant.mentions (g : ℕ) : Constant → Bool
  | .array _ es | .struct _ es | .vector _ es => Constant.anyMentions g es
  | .expr _ _ es => Constant.anyMentions g es
  | .blockAddress f _ => f == g
  | .global g' _ _ | .dsoLocalEquivalent g' _ | .noCFI g' _ => g' == g
  | _ => false
/-- Whether one of a list of constants uses the global `g`. -/
def Constant.anyMentions (g : ℕ) : List Constant → Bool
  | [] => false
  | c :: cs => c.mentions g || Constant.anyMentions g cs
end

/-! ### Values and instructions -/

/-- A value, as an operand refers to it. -/
inductive Value where
  | const (c : Constant)
  | inst (id : ℕ) (op : Opcode) (ty : Ty)
  | arg (idx : ℕ) (ty : Ty)
  | block (b : ℕ)
  | inlineAsm (fnTy : FunctionType) (asmString constraints : String)
      (hasSideEffects isAlignStack isATT : Bool)
  | metadata (n : ℕ)
deriving Repr

/-- `Value::getType`. -/
def Value.getType : Value → Ty
  | .const c => c.getType
  | .inst _ _ ty | .arg _ ty => ty
  | .block _ => .prim .label
  | .inlineAsm fnTy _ _ _ _ _ => fnTy.ptrTy
  | .metadata _ => .prim .metadata

/-- Whether an operand uses the global `g`. -/
def Value.mentions (g : ℕ) : Value → Bool
  | .const c => c.mentions g
  | _ => false

/-- An instruction. -/
structure Instruction where
  id : ℕ
  opcode : Opcode
  type : Ty
  operands : List Value
  /-- whether the instruction carries a debug location -/
  debugLoc : Bool
deriving Repr

namespace Instruction

variable (I : Instruction)

/-- The reference other instructions make to the result of this one. -/
def ref : Value := .inst I.id I.opcode I.type

/-- `Instruction::isTerminator`. -/
def isTerminator : Bool := I.opcode.isTerminator

/-- `isa<PHINode>`. -/
def isPhi : Bool := I.opcode.isPhi

/-- `Instruction::isEHPad`. -/
def isEHPad : Bool := I.opcode.isEHPad

/-- Whether the instruction may stand only in a function with a personality. -/
def needsPersonality : Bool := I.opcode.needsPersonality

/-- `CallInst::isMustTailCall`. -/
def isMustTail : Bool := I.opcode.isMustTail

/-- Whether an operand of the instruction uses the global `g`. -/
def mentions (g : ℕ) : Bool := I.operands.any (Value.mentions g)

/-- The basic blocks among the operands, in operand order. -/
def blockOperands : List ℕ :=
  I.operands.filterMap fun
    | .block b => some b
    | _ => none

/-- The blocks control may go to, as `succ_begin` enumerates them: the block operands of a terminator, those
of a `br` from the last one, so that the block taken on true comes first. -/
def successors : List ℕ :=
  match I.opcode with
  | .br => I.blockOperands.reverse
  | op => if op.isTerminator then I.blockOperands else []

theorem isEHPad_of_needsPersonality {I : Instruction} (h : I.needsPersonality = false) :
    I.isEHPad = false := by
  rw [needsPersonality] at h
  rw [isEHPad]
  cases hop : I.opcode <;> simp_all [Opcode.needsPersonality, Opcode.isEHPad]

/-- A terminator goes to its block operands. -/
theorem mem_successors {b : ℕ} (h : I.isTerminator = true) : b ∈ I.successors ↔ b ∈ I.blockOperands := by
  rw [isTerminator] at h
  rw [successors]
  split
  · exact List.mem_reverse
  · rw [if_pos h]

/-- `CallBase::getCalledOperand`: the last operand of a call. -/
def calledOperand : Option Value :=
  if I.opcode.isCallBase then I.operands.getLast? else none

/-- The function type of a call, an invoke or a callbr. -/
def callType : Option FunctionType :=
  match I.opcode with
  | .call ft _ | .invoke ft | .callBr ft => some ft
  | _ => none

end Instruction

/-! ### Intrinsics -/

/-- The intrinsic identifiers the tools of the repository tell apart. -/
inductive Intrinsic where
  | memcpy | memcpyInline | memmove | memset
  | memcpyElementUnorderedAtomic | memmoveElementUnorderedAtomic | memsetElementUnorderedAtomic
  | vaStart | vaCopy | vaEnd
  | gcRoot | gcRead | gcWrite | gcStatepoint | gcResult
  | dbgDeclare | dbgValue | dbgLabel | dbgAddr
  | constrainedFP (n : ℕ)
  | other (n : ℕ)
deriving DecidableEq, Repr

/-- Whether an intrinsic may be called only from a function with a collector strategy. -/
def Intrinsic.needsGC : Intrinsic → Bool
  | .gcRoot | .gcRead | .gcWrite | .gcStatepoint | .gcResult => true
  | _ => false

end SnippetsLlvm.Ir
