import SnippetsLlvm.MyBase.Calls
import Mathlib.Logic.Relation

/-!
# The kind of an instruction

`printInstKind` runs through more than forty class tests and prints the classes that hold, from base to
derived.  A test with the stop flag ends the loop when it holds; what falls through all of them ends in the
fatal diagnostic.

* `InstClass` — the classes tested, in the order of the tests, with `InstClass.base` for the hierarchy and
  `isa` for the tests;
* `printInstKind` — what is printed and how the loop is left;
* `belongs_chain` — the tested classes of an instruction are a chain from base to derived;
* `classified_iff` — a run is right when it breaks and has printed that whole chain;
* `classified_iff_handled` — **the instructions the function classifies**: no test may stop before the last
  class of the chain, which the tests for `CastInst` and `MemTransferInst` do.
-/

namespace SnippetsLlvm.MyBase

open SnippetsLlvm.Ir

/-! ### The classes -/

/-- The classes the function tests for, in the order of the tests. -/
inductive InstClass where
  | binaryOperator | callInst | intrinsicInst | dbgInfoIntrinsic | dbgValueInst | dbgDeclareInst
  | memIntrinsic | memSetInst | memTransferInst | memCpyInst | vaCopyInst | vaEndInst | vaStartInst
  | cmpInst | iCmpInst | fCmpInst | extractElementInst | getElementPtrInst | insertValueInst | phiNode
  | selectInst | shuffleVectorInst | storeInst | branchInst | indirectBrInst | invokeInst | returnInst
  | switchInst | unreachableInst | unaryInstruction | allocaInst | castInst | bitCastInst | fpExtInst
  | fpToSIInst | fpToUIInst | fpTruncInst | intToPtrInst | ptrToIntInst | sExtInst | siToFPInst | truncInst
  | uiToFPInst | zExtInst | extractValueInst | loadInst | vaArgInst
deriving DecidableEq, Repr

namespace InstClass

/-- All of them. -/
def tested : List InstClass :=
  [binaryOperator, callInst, intrinsicInst, dbgInfoIntrinsic, dbgValueInst, dbgDeclareInst, memIntrinsic,
    memSetInst, memTransferInst, memCpyInst, vaCopyInst, vaEndInst, vaStartInst, cmpInst, iCmpInst, fCmpInst,
    extractElementInst, getElementPtrInst, insertValueInst, phiNode, selectInst, shuffleVectorInst, storeInst,
    branchInst, indirectBrInst, invokeInst, returnInst, switchInst, unreachableInst, unaryInstruction,
    allocaInst, castInst, bitCastInst, fpExtInst, fpToSIInst, fpToUIInst, fpTruncInst, intToPtrInst,
    ptrToIntInst, sExtInst, siToFPInst, truncInst, uiToFPInst, zExtInst, extractValueInst, loadInst, vaArgInst]

/-- The name between the angle brackets of the test. -/
def name : InstClass → String
  | binaryOperator => "BinaryOperator"
  | callInst => "CallInst"
  | intrinsicInst => "IntrinsicInst"
  | dbgInfoIntrinsic => "DbgInfoIntrinsic"
  | dbgValueInst => "DbgValueInst"
  | dbgDeclareInst => "DbgDeclareInst"
  | memIntrinsic => "MemIntrinsic"
  | memSetInst => "MemSetInst"
  | memTransferInst => "MemTransferInst"
  | memCpyInst => "MemCpyInst"
  | vaCopyInst => "VACopyInst"
  | vaEndInst => "VAEndInst"
  | vaStartInst => "VAStartInst"
  | cmpInst => "CmpInst"
  | iCmpInst => "ICmpInst"
  | fCmpInst => "FCmpInst"
  | extractElementInst => "ExtractElementInst"
  | getElementPtrInst => "GetElementPtrInst"
  | insertValueInst => "InsertValueInst"
  | phiNode => "PHINode"
  | selectInst => "SelectInst"
  | shuffleVectorInst => "ShuffleVectorInst"
  | storeInst => "StoreInst"
  | branchInst => "BranchInst"
  | indirectBrInst => "IndirectBrInst"
  | invokeInst => "InvokeInst"
  | returnInst => "ReturnInst"
  | switchInst => "SwitchInst"
  | unreachableInst => "UnreachableInst"
  | unaryInstruction => "UnaryInstruction"
  | allocaInst => "AllocaInst const"
  | castInst => "CastInst"
  | bitCastInst => "BitCastInst"
  | fpExtInst => "FPExtInst"
  | fpToSIInst => "FPToSIInst"
  | fpToUIInst => "FPToUIInst"
  | fpTruncInst => "FPTruncInst"
  | intToPtrInst => "IntToPtrInst"
  | ptrToIntInst => "PtrToIntInst"
  | sExtInst => "SExtInst"
  | siToFPInst => "SIToFPInst"
  | truncInst => "TruncInst"
  | uiToFPInst => "UIToFPInst"
  | zExtInst => "ZExtInst"
  | extractValueInst => "ExtractValueInst"
  | loadInst => "LoadInst"
  | vaArgInst => "VAArgInst"

/-- The nearest base class that is tested too. -/
def base : InstClass → Option InstClass
  | intrinsicInst => some callInst
  | dbgInfoIntrinsic | memIntrinsic | vaCopyInst | vaEndInst | vaStartInst => some intrinsicInst
  | dbgValueInst | dbgDeclareInst => some dbgInfoIntrinsic
  | memSetInst | memTransferInst => some memIntrinsic
  | memCpyInst => some memTransferInst
  | iCmpInst | fCmpInst => some cmpInst
  | allocaInst | castInst | extractValueInst | loadInst | vaArgInst => some unaryInstruction
  | bitCastInst | fpExtInst | fpToSIInst | fpToUIInst | fpTruncInst | intToPtrInst | ptrToIntInst
  | sExtInst | siToFPInst | truncInst | uiToFPInst | zExtInst => some castInst
  | _ => none

/-- The direct subclasses. -/
def Extends (K K' : InstClass) : Prop := K.base = some K'

/-- The subclasses, the class itself among them. -/
def IsSubclass (K K' : InstClass) : Prop := Relation.ReflTransGen Extends K K'

/-- The proper subclasses. -/
def IsProperSubclass (K K' : InstClass) : Prop := Relation.TransGen Extends K K'

end InstClass

/-- `Instruction::getOpcode` is `Call`. -/
def isCall (op : Opcode) : Bool := op matches .call _ _

/-- The `classof` of each class, on an opcode and the intrinsic called. -/
def classof (op : Opcode) (intr : Option Intrinsic) : InstClass → Bool
  | .binaryOperator => op.isBinaryOp
  | .callInst => isCall op
  | .intrinsicInst => intr.isSome
  | .dbgInfoIntrinsic => intr ∈ [some .dbgDeclare, some .dbgValue, some .dbgLabel, some .dbgAddr]
  | .dbgValueInst => intr = some .dbgValue
  | .dbgDeclareInst => intr = some .dbgDeclare
  | .memIntrinsic => intr ∈ [some .memcpy, some .memcpyInline, some .memmove, some .memset]
  | .memSetInst => intr = some .memset
  | .memTransferInst => intr ∈ [some .memcpy, some .memcpyInline, some .memmove]
  | .memCpyInst => intr ∈ [some .memcpy, some .memcpyInline]
  | .vaCopyInst => intr = some .vaCopy
  | .vaEndInst => intr = some .vaEnd
  | .vaStartInst => intr = some .vaStart
  | .cmpInst => (op matches .icmp _) || (op matches .fcmp _)
  | .iCmpInst => (op matches .icmp _)
  | .fCmpInst => (op matches .fcmp _)
  | .extractElementInst => (op matches .extractElement)
  | .getElementPtrInst => op.isGetElementPtr
  | .insertValueInst => (op matches .insertValue _)
  | .phiNode => op.isPhi
  | .selectInst => (op matches .select)
  | .shuffleVectorInst => (op matches .shuffleVector _)
  | .storeInst => (op matches .store)
  | .branchInst => (op matches .br)
  | .indirectBrInst => (op matches .indirectBr)
  | .invokeInst => (op matches .invoke _)
  | .returnInst => (op matches .ret)
  | .switchInst => (op matches .switch)
  | .unreachableInst => (op matches .unreachable)
  | .unaryInstruction => (op matches .fneg) || (op matches .alloca _) || (op matches .load) ||
      (op matches .vaArg) || (op matches .extractValue _) || op.isCast
  | .allocaInst => (op matches .alloca _)
  | .castInst => op.isCast
  | .bitCastInst => (op matches .cast .bitCast)
  | .fpExtInst => (op matches .cast .fpExt)
  | .fpToSIInst => (op matches .cast .fpToSI)
  | .fpToUIInst => (op matches .cast .fpToUI)
  | .fpTruncInst => (op matches .cast .fpTrunc)
  | .intToPtrInst => (op matches .cast .intToPtr)
  | .ptrToIntInst => (op matches .cast .ptrToInt)
  | .sExtInst => (op matches .cast .sext)
  | .siToFPInst => (op matches .cast .siToFP)
  | .truncInst => (op matches .cast .trunc)
  | .uiToFPInst => (op matches .cast .uiToFP)
  | .zExtInst => (op matches .cast .zext)
  | .extractValueInst => (op matches .extractValue _)
  | .loadInst => (op matches .load)
  | .vaArgInst => (op matches .vaArg)

/-- `IntrinsicInst::getIntrinsicID`, of a call whose called function is an intrinsic. -/
def intrinsicID (M : Module) (I : Instruction) : Option Intrinsic :=
  if isCall I.opcode then (M.getCalledFunction I).bind Function.intrinsic else none

/-- `isa<K>(I)`. -/
def isa (M : Module) (I : Instruction) : InstClass → Bool := classof I.opcode (intrinsicID M I)

/-! ### The function -/

/-- The index of the first occurrence, `std::string::find`. -/
def find (pat s : List Char) : Option ℕ := s.tails.findIdx? (pat.isPrefixOf ·)

/-- **`InstTypeStr`**: the text between `isa<` and the first `>`. -/
def instTypeStr (s : List Char) : Option (List Char) :=
  match find "isa<".toList s, find ">".toList s with
  | some i, some typeEndIndex => some ((s.drop (i + 4)).take (typeEndIndex - (i + 4)))
  | _, _ => none

/-- The text of a test, which the macro makes a string of. -/
def InstClass.key (K : InstClass) : List Char := "isa<".toList ++ (K.name.toList ++ ">(I)".toList)

/-- A piece of the output. -/
inductive Item where
  | inst
  | cls (K : InstClass)
  | arrow
  | newline
  | inlineAsm
  | simpleCall
  | fatal
deriving DecidableEq, Repr

/-- The text of a piece, where the instruction itself is printed as given. -/
def Item.text (printed : String) : Item → String
  | .inst => "\n" ++ printed ++ "\n"
  | .cls K => String.ofList ((instTypeStr K.key).getD [])
  | .arrow => " <-- "
  | .newline => "\n"
  | .inlineAsm => "InlineAsm\n"
  | .simpleCall => "[Simple CallInst]\n"
  | .fatal => "FATAL: unknown Instruction Type\n\n"

/-- How the loop is left: by a `break` in its first iteration, or by `abort` at the end of it. -/
inductive Outcome where
  | brk
  | abort
deriving DecidableEq, Repr

/-- The output, and how the loop is left. -/
structure Output where
  items : List Item
  outcome : Outcome
deriving DecidableEq, Repr

/-- Output before the rest. -/
def Output.after (items : List Item) (rest : Output) : Output := ⟨items ++ rest.items, rest.outcome⟩

/-- The classes printed, in order. -/
def Output.classes (out : Output) : List InstClass :=
  out.items.filterMap fun
    | .cls K => some K
    | _ => none

variable (is : InstClass → Bool)

/-- **`INST_KIND_DUMP`**, followed by the rest of the loop. -/
def instKindDump (stop : Bool) (key : InstClass) (rest : Output) : Output :=
  if is key then
    if stop then ⟨[.cls key, .newline], .brk⟩ else rest.after [.cls key, .arrow]
  else rest

/-- The tests made on a call that is not inline assembly. -/
def dumpCall : Output :=
  instKindDump is false .intrinsicInst <|
  instKindDump is false .dbgInfoIntrinsic <|
  instKindDump is true .dbgValueInst <|
  instKindDump is true .dbgDeclareInst <|
  instKindDump is false .memIntrinsic <|
  instKindDump is false .memSetInst <|
  instKindDump is true .memTransferInst <|
  instKindDump is true .memCpyInst <|
  instKindDump is true .vaCopyInst <|
  instKindDump is true .vaEndInst <|
  instKindDump is true .vaStartInst <|
  ⟨[.simpleCall], .brk⟩

/-- The tests made on an instruction that is not a call. -/
def dumpOther : Output :=
  instKindDump is false .cmpInst <|
  instKindDump is true .iCmpInst <|
  instKindDump is true .fCmpInst <|
  instKindDump is true .extractElementInst <|
  instKindDump is true .getElementPtrInst <|
  instKindDump is true .insertValueInst <|
  instKindDump is true .phiNode <|
  instKindDump is true .selectInst <|
  instKindDump is true .shuffleVectorInst <|
  instKindDump is true .storeInst <|
  instKindDump is true .branchInst <|
  instKindDump is true .indirectBrInst <|
  instKindDump is true .invokeInst <|
  instKindDump is true .returnInst <|
  instKindDump is true .switchInst <|
  instKindDump is true .unreachableInst <|
  instKindDump is false .unaryInstruction <|
  instKindDump is true .allocaInst <|
  instKindDump is true .castInst <|
  instKindDump is true .bitCastInst <|
  instKindDump is true .fpExtInst <|
  instKindDump is true .fpToSIInst <|
  instKindDump is true .fpToUIInst <|
  instKindDump is true .fpTruncInst <|
  instKindDump is true .intToPtrInst <|
  instKindDump is true .ptrToIntInst <|
  instKindDump is true .sExtInst <|
  instKindDump is true .siToFPInst <|
  instKindDump is true .truncInst <|
  instKindDump is true .uiToFPInst <|
  instKindDump is true .zExtInst <|
  instKindDump is true .extractValueInst <|
  instKindDump is true .loadInst <|
  instKindDump is true .vaArgInst <|
  -- `rbscope_diagnostics(FATAL, ..)`
  ⟨[.fatal], .abort⟩

/-- The loop, on the class tests and whether the instruction is a call of inline assembly. -/
def dumpKinds (asm : Bool) : Output :=
  instKindDump is true .binaryOperator <|
  instKindDump is false .callInst <|
  if is .callInst then if asm then ⟨[.inlineAsm], .brk⟩ else dumpCall is else dumpOther is

/-- **`printInstKind`.** -/
def printInstKind (M : Module) (I : Instruction) : Output :=
  (dumpKinds (isa M I) (isInlineAsm I)).after [.inst]

/-! ### What it is for -/

/-- An output that classifies an instruction: the loop breaks, the classes printed are classes of the
instruction, each a subclass of the one before, and the last one is a subclass of all tested classes of the
instruction. -/
structure Classifies (out : Output) : Prop where
  breaks : out.outcome = .brk
  belongs : ∀ K ∈ out.classes, is K = true
  chain : out.classes.IsChain fun K K' => K'.IsProperSubclass K
  mostDerived : ∃ K, out.classes.getLast? = some K ∧ ∀ K', is K' = true → K.IsSubclass K'

/-- The opcodes whose tests do not stop before the most derived class, and stop there. -/
def handled : Opcode → Bool
  | .fence | .cmpXchg | .atomicRMW _ | .landingPad _ | .insertElement | .resume | .cleanupRet | .catchRet
  | .catchSwitch | .callBr _ | .cleanupPad | .catchPad | .freeze | .fneg => false
  | .cast op => op = .addrSpaceCast
  | _ => true

/-! ### The classes of an instruction -/

/-- The classes of an intrinsic beyond `IntrinsicInst`. -/
def intrinsicLineage : Intrinsic → List InstClass
  | .dbgDeclare => [.dbgInfoIntrinsic, .dbgDeclareInst]
  | .dbgValue => [.dbgInfoIntrinsic, .dbgValueInst]
  | .dbgLabel | .dbgAddr => [.dbgInfoIntrinsic]
  | .memcpy | .memcpyInline => [.memIntrinsic, .memTransferInst, .memCpyInst]
  | .memmove => [.memIntrinsic, .memTransferInst]
  | .memset => [.memIntrinsic, .memSetInst]
  | .vaStart => [.vaStartInst]
  | .vaCopy => [.vaCopyInst]
  | .vaEnd => [.vaEndInst]
  | _ => []

/-- The class of a cast beyond `CastInst`. -/
def castLineage : CastOp → List InstClass
  | .trunc => [.truncInst]
  | .zext => [.zExtInst]
  | .sext => [.sExtInst]
  | .fpToUI => [.fpToUIInst]
  | .fpToSI => [.fpToSIInst]
  | .uiToFP => [.uiToFPInst]
  | .siToFP => [.siToFPInst]
  | .fpTrunc => [.fpTruncInst]
  | .fpExt => [.fpExtInst]
  | .ptrToInt => [.ptrToIntInst]
  | .intToPtr => [.intToPtrInst]
  | .bitCast => [.bitCastInst]
  | .addrSpaceCast => []

/-- The tested classes of an instruction, from base to derived. -/
def lineage (intr : Option Intrinsic) : Opcode → List InstClass
  | .binary _ => [.binaryOperator]
  | .call _ _ => .callInst :: intr.elim [] fun i => .intrinsicInst :: intrinsicLineage i
  | .icmp _ => [.cmpInst, .iCmpInst]
  | .fcmp _ => [.cmpInst, .fCmpInst]
  | .extractElement => [.extractElementInst]
  | .getElementPtr _ => [.getElementPtrInst]
  | .insertValue _ => [.insertValueInst]
  | .phi _ => [.phiNode]
  | .select => [.selectInst]
  | .shuffleVector _ => [.shuffleVectorInst]
  | .store => [.storeInst]
  | .br => [.branchInst]
  | .indirectBr => [.indirectBrInst]
  | .invoke _ => [.invokeInst]
  | .ret => [.returnInst]
  | .switch => [.switchInst]
  | .unreachable => [.unreachableInst]
  | .fneg => [.unaryInstruction]
  | .alloca _ => [.unaryInstruction, .allocaInst]
  | .cast op => .unaryInstruction :: .castInst :: castLineage op
  | .extractValue _ => [.unaryInstruction, .extractValueInst]
  | .load => [.unaryInstruction, .loadInst]
  | .vaArg => [.unaryInstruction, .vaArgInst]
  | _ => []

/-- Only calls have an intrinsic. -/
theorem intrinsicID_eq_none {M : Module} {I : Instruction} (h : isCall I.opcode = false) :
    intrinsicID M I = none := by
  rw [intrinsicID, h]
  rfl

/-- Inline assembly is no intrinsic. -/
theorem intrinsicID_of_isInlineAsm {M : Module} {I : Instruction} (h : isInlineAsm I = true) :
    intrinsicID M I = none := by
  rw [isInlineAsm] at h
  split at h
  · rename_i hop
    rw [intrinsicID, Module.getCalledFunction, hop]
    split
    · rfl
    · rfl
  · cases h

theorem filter_classof {op : Opcode} {intr : Option Intrinsic} (h : isCall op = false → intr = none) :
    InstClass.tested.filter (classof op intr) = lineage intr op := by
  by_cases hcall : isCall op = true
  · cases op <;> cases hcall
    rcases intr with _ | i
    · rfl
    · cases i <;> rfl
  · rw [h (by simpa using hcall)]
    cases op with
    | cast op => cases op <;> rfl
    | call fnTy mustTail => exact absurd rfl hcall
    | _ => rfl

/-- **The tested classes of an instruction are a chain** from base to derived. -/
theorem belongs_chain (M : Module) (I : Instruction) :
    (InstClass.tested.filter (isa M I)).IsChain fun K K' => K'.Extends K := by
  have hchain : ∀ (intr : Option Intrinsic) (op : Opcode),
      (lineage intr op).IsChain fun K K' => K'.Extends K := by
    simp only [InstClass.Extends]
    intro intr op
    cases op with
    | cast op => cases op <;> exact of_decide_eq_true rfl
    | call fnTy mustTail =>
      rcases intr with _ | i
      · exact of_decide_eq_true rfl
      · cases i <;> exact of_decide_eq_true rfl
    | _ => exact of_decide_eq_true rfl
  rw [isa, filter_classof intrinsicID_eq_none]
  exact hchain _ _

/-! ### When an output classifies -/

/-- A base class is tested before its subclasses. -/
theorem InstClass.Extends.idxOf_lt {K K' : InstClass} (h : K.Extends K') :
    tested.idxOf K' < tested.idxOf K := by
  rw [Extends] at h
  cases K <;> cases h <;> decide

theorem InstClass.IsSubclass.idxOf_le {K K' : InstClass} (h : K.IsSubclass K') :
    tested.idxOf K' ≤ tested.idxOf K := by
  induction h with
  | refl => exact le_rfl
  | tail _ hstep ih => exact hstep.idxOf_lt.le.trans ih

theorem tested_sorted : InstClass.tested.Pairwise
    fun K K' => InstClass.tested.idxOf K < InstClass.tested.idxOf K' := by
  decide

theorem mem_tested (K : InstClass) : K ∈ InstClass.tested := by
  cases K <;> decide

/-- The last class of a chain is a subclass of all others. -/
theorem isSubclass_of_chain {Ks : List InstClass} {K : InstClass}
    (hchain : Ks.IsChain fun K K' => K'.Extends K) (hlast : Ks.getLast? = some K) :
    ∀ K' ∈ Ks, K.IsSubclass K' := by
  induction Ks with
  | nil => cases hlast
  | cons K₁ Ks ih =>
    cases Ks with
    | nil =>
      cases hlast
      intro K' hK'
      rw [List.mem_singleton.mp hK']
      exact .refl
    | cons K₂ Ks =>
      rw [List.getLast?_cons_cons] at hlast
      obtain ⟨hstep, hchain⟩ := List.isChain_cons_cons.mp hchain
      have hrest := ih hchain hlast
      intro K' hK'
      rcases List.mem_cons.mp hK' with rfl | hK'
      · exact (hrest K₂ List.mem_cons_self).tail hstep
      · exact hrest K' hK'

variable {is}

/-- **An output that leaves nothing out**: when the classes printed begin the chain of all tested classes, the
output classifies the instruction exactly if the loop breaks and the whole chain is printed. -/
theorem classifies_iff {out : Output}
    (hchain : (InstClass.tested.filter is).IsChain fun K K' => K'.Extends K)
    (hbegin : out.classes <+: InstClass.tested.filter is) : Classifies is out ↔
      out.outcome = .brk ∧ InstClass.tested.filter is ≠ [] ∧ out.classes = InstClass.tested.filter is := by
  constructor
  · intro h
    obtain ⟨K, hlast, hmost⟩ := h.mostDerived
    obtain ⟨rest, hrest⟩ := hbegin
    have hK : K ∈ out.classes := List.mem_of_getLast? hlast
    refine ⟨h.breaks, ?_, ?_⟩
    · rw [← hrest]
      exact List.ne_nil_of_mem (List.mem_append_left _ hK)
    · cases rest with
      | nil => rw [← hrest, List.append_nil]
      | cons K' rest =>
        -- a class of the instruction that is tested later would have to be a base class of `K`
        have hsorted := tested_sorted.sublist (List.filter_sublist (p := is))
        rw [← hrest, List.pairwise_append] at hsorted
        have hlt := hsorted.2.2 K hK K' List.mem_cons_self
        have hmem : K' ∈ InstClass.tested.filter is := by
          rw [← hrest]
          exact List.mem_append_right _ List.mem_cons_self
        have hle := (hmost K' (List.mem_filter.mp hmem).2).idxOf_le
        omega
  · rintro ⟨hbrk, hne, heq⟩
    refine ⟨hbrk, ?_, ?_, ?_⟩
    · intro K hK
      rw [heq] at hK
      exact (List.mem_filter.mp hK).2
    · rw [heq]
      exact hchain.imp fun _ _ hstep => .single hstep
    · have hlast := List.getLast?_eq_some_getLast hne
      refine ⟨_, by rw [heq, hlast], ?_⟩
      intro K' hK'
      exact isSubclass_of_chain hchain hlast K' (List.mem_filter.mpr ⟨mem_tested K', hK'⟩)

/-! ### What the function prints -/

/-- The classes printed begin the chain: the tests are made in its order, and some are not made. -/
theorem dumpKinds_begins {op : Opcode} {intr : Option Intrinsic} {asm : Bool}
    (hcall : isCall op = false → intr = none) (hasm : asm = true → intr = none) :
    (dumpKinds (classof op intr) asm).classes.isPrefixOf (lineage intr op) = true := by
  by_cases h : isCall op = true
  · cases op <;> cases h
    rcases intr with _ | i
    · cases asm <;> rfl
    · have hno : asm = false := by simpa using hasm
      subst hno
      cases i <;> rfl
  · rw [hcall (by simpa using h)]
    cases op with
    | cast op => cases op <;> rfl
    | call fnTy mustTail => exact absurd rfl h
    | _ => rfl

/-- Which runs break after the whole chain. -/
theorem dumpKinds_complete {op : Opcode} {intr : Option Intrinsic} {asm : Bool}
    (hcall : isCall op = false → intr = none) (hasm : asm = true → intr = none) :
    (decide ((dumpKinds (classof op intr) asm).outcome = .brk) && !(lineage intr op).isEmpty &&
      decide ((dumpKinds (classof op intr) asm).classes = lineage intr op)) =
      (handled op && !decide (intr = some .memcpy) && !decide (intr = some .memcpyInline)) := by
  by_cases h : isCall op = true
  · cases op <;> cases h
    rcases intr with _ | i
    · cases asm <;> rfl
    · have hno : asm = false := by simpa using hasm
      subst hno
      cases i <;> rfl
  · rw [hcall (by simpa using h)]
    cases op with
    | cast op => cases op <;> rfl
    | call fnTy mustTail => exact absurd rfl h
    | _ => rfl

/-- Every class is printed under its name. -/
theorem instTypeStr_key (K : InstClass) : instTypeStr K.key = some K.name.toList := by
  cases K <;> rfl

/-- The instruction itself is no class. -/
theorem after_inst_classes (out : Output) : (out.after [.inst]).classes = out.classes := rfl

/-- **The instructions `printInstKind` classifies** are those whose opcode is tested for and is no cast to
which a concrete cast class belongs, calls of `memcpy` excepted. -/
theorem classifies_iff_handled (M : Module) (I : Instruction) :
    Classifies (isa M I) (printInstKind M I) ↔ handled I.opcode = true ∧
      intrinsicID M I ≠ some .memcpy ∧ intrinsicID M I ≠ some .memcpyInline := by
  have hcall := @intrinsicID_eq_none M I
  have hasm := @intrinsicID_of_isInlineAsm M I
  have hfilter : InstClass.tested.filter (isa M I) = lineage (intrinsicID M I) I.opcode :=
    filter_classof hcall
  have hclasses : (printInstKind M I).classes =
      (dumpKinds (classof I.opcode (intrinsicID M I)) (isInlineAsm I)).classes := after_inst_classes _
  have hbegin : (printInstKind M I).classes <+: InstClass.tested.filter (isa M I) := by
    rw [hfilter, hclasses]
    exact List.isPrefixOf_iff_prefix.mp (dumpKinds_begins hcall hasm)
  have houtcome : (printInstKind M I).outcome =
      (dumpKinds (classof I.opcode (intrinsicID M I)) (isInlineAsm I)).outcome := rfl
  have hcomplete := dumpKinds_complete hcall hasm
  rw [classifies_iff (belongs_chain M I) hbegin, hfilter, hclasses, houtcome]
  rw [Bool.eq_iff_iff] at hcomplete
  simpa [and_assoc] using hcomplete

/-! ### A cast and a fence -/

/-- The cast in `int *f(char *p) { return (int *)p; }`. -/
def castInst : Instruction := ⟨0, .cast .bitCast, .pointer .i32 0, [.arg 0 .i8Ptr], false⟩

/-- The fence `fence seq_cst`. -/
def fenceInst : Instruction := ⟨1, .fence, .void, [], false⟩

/-- `int *f(char *p) { __sync_synchronize(); return (int *)p; }`. -/
def castFn : Function :=
  ⟨0, "f", ⟨.pointer .i32 0, [.i8Ptr], false⟩, .external, ⟨[], []⟩, false, 0, none, none, none, none,
    [⟨0, "entry", [castInst, fenceInst, ⟨2, .ret, .void, [castInst.ref], false⟩]⟩], 3, 1⟩

/-- The module of `castFn`. -/
def castModule : Module := ⟨[castFn], [], [], [], [], 1, 0⟩

/-- The classification of the bit cast ends at `CastInst`, the one of the fence in the fatal diagnostic. -/
theorem classifies_castFn : castModule.WellFormed ∧ castInst ∈ castFn.insts ∧ fenceInst ∈ castFn.insts ∧
    printInstKind castModule castInst =
      ⟨[.inst, .cls .unaryInstruction, .arrow, .cls .castInst, .newline], .brk⟩ ∧
    isa castModule castInst .bitCastInst = true ∧
    printInstKind castModule fenceInst = ⟨[.inst, .fatal], .abort⟩ ∧
    ¬ Classifies (isa castModule castInst) (printInstKind castModule castInst) ∧
    ¬ Classifies (isa castModule fenceInst) (printInstKind castModule fenceInst) := by
  refine ⟨Module.Verified.wellFormed (by decide), by simp [castFn, Function.insts],
    by simp [castFn, Function.insts], rfl, rfl, rfl, ?_, ?_⟩
  · intro h
    -- `CastInst` would have to be a subclass of `BitCastInst`
    obtain ⟨K, hlast, hmost⟩ := h.mostDerived
    cases hlast
    exact absurd (hmost .bitCastInst rfl).idxOf_le (by decide)
  · intro h
    cases h.breaks

end SnippetsLlvm.MyBase
