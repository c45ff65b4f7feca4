import SnippetsLlvm.Ir.Module

/-!
# Well-formed modules

The part of the verifier's rules that the passes of this repository can break or rely on.

* `BasicBlock.WellFormed` — one terminator, in last place; phi nodes first; an exception-handling pad has
  only phi nodes before it; a `musttail` call is followed by the `ret`, up to one bitcast of its result;
* `Function.WellFormed` — distinct blocks and instructions, closed successors, an entry block without
  predecessors, every operand defined before its use on every path from the entry, well-typed calls and
  returns, an exception handler where an `invoke` unwinds to, and what a body asks of its function: a
  personality for pads and `resume`, a collector strategy for the intrinsics that need one, parameters without end
  for `llvm.va_start`, attributes that fit the return type;
* `Module.WellFormed` — distinct identities and names, and no reference to a global that is not there.

Definition before use is stated over paths of the control-flow graph.  A value made by an `invoke` is
there only on the edge to its normal destination.  The rules on debug locations and on calls of
`llvm.experimental.deoptimize` are not among those stated here.
-/

namespace SnippetsLlvm.Ir

/-! ### Blocks -/

/-- What may follow a `musttail` call in its block. -/
def FollowedByRet (I : Instruction) (post : List Instruction) : Prop :=
  (∃ r, post = [r] ∧ r.opcode = .ret) ∨
    ∃ c r, post = [c, r] ∧ c.opcode = .cast .bitCast ∧ c.operands = [I.ref] ∧ r.opcode = .ret

/-- The rules on the order of the instructions of a block. -/
structure BasicBlock.WellFormed (B : BasicBlock) : Prop where
  terminator : ∃ body t, B.insts = body ++ [t] ∧ t.isTerminator = true ∧
    ∀ I ∈ body, I.isTerminator = false
  phisFirst : ∀ pre I post, B.insts = pre ++ I :: post → I.isPhi = true → ∀ J ∈ pre, J.isPhi = true
  padsFirst : ∀ pre I post, B.insts = pre ++ I :: post → I.isEHPad = true → ∀ J ∈ pre, J.isPhi = true
  mustTail : ∀ pre I post, B.insts = pre ++ I :: post → I.isMustTail = true → FollowedByRet I post

/-! ### Paths and definitions -/

namespace Function

/-- The successors of a block, by identity. -/
def successors (F : Function) (b : ℕ) : List ℕ :=
  match F.block? b with
  | some B => B.successors
  | none => []

/-- `p` is a path of the control-flow graph from the entry block to `b`. -/
structure PathTo (F : Function) (p : List ℕ) (b : ℕ) : Prop where
  start : p.head? = F.blocks.head?.map BasicBlock.id
  edges : List.IsChain (fun b₁ b₂ => b₂ ∈ F.successors b₁) p
  stop : p.getLast? = some b

/-- A path runs through the definition of `d` before its last block; a value made by an `invoke` counts
only when the path goes on to the normal destination. -/
def DefinedOn (F : Function) (p : List ℕ) (d : ℕ) : Prop :=
  ∃ pre b b' post, p = pre ++ b :: b' :: post ∧
    ∃ B, F.block? b = some B ∧ ∃ I ∈ B.insts, I.id = d ∧
      ((∃ ft, I.opcode = .invoke ft) → I.blockOperands.head? = some b')

/-- The value `d` is there when an instruction of block `b`, after the instructions `pre`, reads it. -/
def DefinedBefore (F : Function) (b : ℕ) (pre : List Instruction) (d : ℕ) : Prop :=
  (∃ J ∈ pre, J.id = d) ∨ ∀ p, F.PathTo p b → F.DefinedOn p d

end Function

/-- A local operand names an instruction of the function and agrees with its class and type. -/
def Value.RefersInto (F : Function) : Value → Prop
  | .inst d op ty => ∃ J ∈ F.insts, J.id = d ∧ J.opcode = op ∧ J.type = ty
  | .arg i ty => F.type.params[i]? = some ty
  | _ => True

/-- A direct operand that is a global is a global of the module, of that class and type, and every use
inside a constant is of a global of the module. -/
def Value.GlobalsIn (M : Module) (v : Value) : Prop :=
  (∀ g k ty, v = .const (.global g k ty) → ∃ V ∈ M.globalValues, V.ref = .global g k ty) ∧
    ∀ g, v.mentions g = true → ∃ V ∈ M.globalValues, V.id = g

/-! ### Instructions -/

namespace Instruction

/-- The arguments of a call: its operands without the callee and the destinations. -/
def callArgs (I : Instruction) : List Value :=
  I.operands.dropLast.filter fun
    | .block _ => false
    | _ => true

/-- The callee has the function type of the call, and the arguments its parameter types. -/
structure CallTyped (I : Instruction) (ft : FunctionType) : Prop where
  callee : I.operands.getLast?.map Value.getType = some ft.ptrTy
  result : I.type = ft.ret
  args : (I.callArgs.map Value.getType).take ft.params.length = ft.params
  arity : ft.isVarArg = false → I.callArgs.length = ft.params.length

/-- The typing rules of the instructions other than calls and returns. -/
def WellTyped (I : Instruction) : Prop :=
  match I.opcode with
  | .load => ∃ p a, I.operands = [p] ∧ p.getType = .pointer I.type a
  | .store => ∃ v p a, I.operands = [v, p] ∧ p.getType = .pointer v.getType a ∧ I.type = .void
  | .binary _ => ∃ x y, I.operands = [x, y] ∧ x.getType = I.type ∧ y.getType = I.type
  | .alloca ty => ∃ a, I.type = .pointer ty a
  | .phi _ => ∀ v ∈ I.operands, v.getType = I.type
  | .select => ∃ c x y, I.operands = [c, x, y] ∧ x.getType = I.type ∧ y.getType = I.type
  | .cast .ptrToInt => ∃ v, I.operands = [v]
  | .cast .intToPtr => ∃ v, I.operands = [v]
  | _ => True

end Instruction

/-- Parameter types of a `musttail` caller and callee: equal, or both pointers into one address space. -/
def Ty.Congruent : Ty → Ty → Prop
  | .pointer _ a, .pointer _ b => a = b
  | s, t => s = t

/-! ### Functions and modules -/

/-- The rules on one function of the module `M`. -/
structure Function.WellFormed (M : Module) (F : Function) : Prop where
  blocks : ∀ B ∈ F.blocks, B.WellFormed
  blockIds : (F.blocks.map BasicBlock.id).Nodup
  blockBound : ∀ B ∈ F.blocks, B.id < F.nextBlock
  valueIds : (F.insts.map Instruction.id).Nodup
  valueBound : ∀ I ∈ F.insts, I.id < F.nextValue
  successors : ∀ B ∈ F.blocks, ∀ b ∈ B.successors, b ∈ F.blocks.map BasicBlock.id
  entryPreds : ∀ E, F.blocks.head? = some E → ∀ B ∈ F.blocks, E.id ∉ B.successors
  entryPlain : ∀ E, F.blocks.head? = some E → ∀ I ∈ E.insts, I.isPhi = false ∧ I.isEHPad = false
  localRefs : ∀ I ∈ F.insts, ∀ v ∈ I.operands, v.RefersInto F
  globalRefs : ∀ I ∈ F.insts, ∀ v ∈ I.operands, v.GlobalsIn M
  defined : ∀ B ∈ F.blocks, ∀ pre I post, B.insts = pre ++ I :: post → I.isPhi = false →
    ∀ d op ty, .inst d op ty ∈ I.operands → F.DefinedBefore B.id pre d
  phis : ∀ B ∈ F.blocks, ∀ I ∈ B.insts, ∀ inc, I.opcode = .phi inc →
    inc.length = I.operands.length ∧ (∀ b, b ∈ inc ↔ ∃ P ∈ F.blocks, P.id = b ∧ B.id ∈ P.successors) ∧
      ∀ v b, (v, b) ∈ I.operands.zip inc → ∀ d op ty, v = .inst d op ty →
        ∀ p, F.PathTo p b → F.DefinedOn (p ++ [B.id]) d
  typed : ∀ I ∈ F.insts, I.WellTyped
  calls : ∀ I ∈ F.insts, ∀ ft, I.callType = some ft → I.CallTyped ft
  rets : ∀ I ∈ F.insts, I.opcode = .ret →
    (I.operands = [] ∧ F.type.ret = .void) ∨ ∃ v, I.operands = [v] ∧ v.getType = F.type.ret
  pads : (∃ I ∈ F.insts, I.needsPersonality = true) → F.personality.isSome = true
  unwindDests : ∀ I ∈ F.insts, (∃ ft, I.opcode = .invoke ft) →
    ∃ B ∈ F.blocks, I.blockOperands[1]? = some B.id ∧ ∃ J ∈ B.insts, J.isEHPad = true
  mustTailProto : ∀ I ∈ F.insts, ∀ ft, I.opcode = .call ft true →
    ft.isVarArg = F.type.isVarArg ∧ List.Forall₂ Ty.Congruent ft.params F.type.params
  vaStart : ∀ I ∈ F.insts, ∀ g ty, I.calledOperand = some (.const (.global g .function ty)) →
    ∀ G ∈ M.functions, G.id = g → G.intrinsic = some .vaStart → F.type.isVarArg = true
  gcCalls : ∀ I ∈ F.insts, ∀ g ty, I.calledOperand = some (.const (.global g .function ty)) →
    ∀ G ∈ M.functions, G.id = g → G.intrinsic.any Intrinsic.needsGC = true → F.gc.isSome = true
  attributes : F.attributes.Fits F.type.ret F.unnamedAddr
  personalityRef : ∀ c, F.personality = some c →
    ∀ g, c.mentions g = true → ∃ V ∈ M.globalValues, V.id = g

/-- The rules on a module. -/
structure Module.WellFormed (M : Module) : Prop where
  ids : (M.globalValues.map GlobalValue.id).Nodup
  idBound : ∀ V ∈ M.globalValues, V.id < M.nextGlobal
  names : (M.names.filter (· ≠ "")).Nodup
  functions : ∀ F ∈ M.functions, F.WellFormed M
  initializers : ∀ G ∈ M.globals, ∀ c, G.initializer = some c →
    c.getType = G.valueType ∧ ∀ g, c.mentions g = true → ∃ V ∈ M.globalValues, V.id = g
  aliasees : ∀ A ∈ M.aliases, ∀ g, A.aliasee.mentions g = true → ∃ V ∈ M.globalValues, V.id = g
  resolvers : ∀ I ∈ M.ifuncs, ∀ g, I.resolver.mentions g = true → ∃ V ∈ M.globalValues, V.id = g
  intrinsics : ∀ F ∈ M.functions, F.intrinsic.isSome = true → "llvm.".toList <+: F.name.toList

/-! ### First consequences -/

theorem BasicBlock.WellFormed.getTerminator_isSome {B : BasicBlock} (h : B.WellFormed) :
    B.getTerminator.isSome = true := by
  obtain ⟨body, t, hB, ht, -⟩ := h.terminator
  simp [BasicBlock.getTerminator, hB, ht]

theorem BasicBlock.WellFormed.insts_ne_nil {B : BasicBlock} (h : B.WellFormed) : B.insts ≠ [] := by
  obtain ⟨body, t, hB, -⟩ := h.terminator
  simp [hB]

/-- With distinct names, a listed global is the one its name finds. -/
theorem Module.getNamedValue_of_mem {M : Module} (hM : (M.names.filter (· ≠ "")).Nodup)
    {V : GlobalValue} (hV : V ∈ M.globalValues) (hname : V.name ≠ "") :
    M.getNamedValue V.name = some V := by
  rw [Module.getNamedValue]
  rw [Module.names] at hM
  generalize M.globalValues = Vs at hM hV
  induction Vs with
  | nil => cases hV
  | cons W Ws ih =>
    rw [List.map_cons] at hM
    rcases List.mem_cons.mp hV with rfl | hV
    · simp
    · have hne : W.name ≠ V.name := by
        intro h
        rw [h, List.filter_cons_of_pos (by simpa using hname), List.nodup_cons] at hM
        exact hM.1 (List.mem_filter.mpr ⟨List.mem_map_of_mem hV, by simpa using hname⟩)
      rw [List.find?_cons_of_neg (by simpa using hne)]
      exact ih (hM.sublist ((List.sublist_cons_self _ _).filter _)) hV

namespace Module.WellFormed

variable {M : Module}

theorem functionIds (h : M.WellFormed) : (M.functions.map Function.id).Nodup := by
  have hids := h.ids
  simp only [Module.globalValues, List.map_append, List.map_map] at hids
  exact (List.nodup_append.mp (List.nodup_append.mp (List.nodup_append.mp hids).1).1).1

theorem function_lt (h : M.WellFormed) {F : Function} (hF : F ∈ M.functions) : F.id < M.nextGlobal :=
  h.idBound (.function F) (by simp [Module.globalValues, hF])

theorem global_lt (h : M.WellFormed) {G : GlobalVariable} (hG : G ∈ M.globals) :
    G.id < M.nextGlobal :=
  h.idBound (.variable G) (by simp [Module.globalValues, hG])

theorem function?_of_mem (h : M.WellFormed) {F : Function} (hF : F ∈ M.functions) :
    M.function? F.id = some F :=
  Module.find?_of_mem_nodup h.functionIds hF

theorem block?_of_mem (h : M.WellFormed) {F : Function} (hF : F ∈ M.functions) {B : BasicBlock}
    (hB : B ∈ F.blocks) : M.block? F.id B.id = some B := by
  rw [Module.block?, h.function?_of_mem hF]
  exact Module.find?_of_mem_nodup (h.functions F hF).blockIds hB

end Module.WellFormed

/-! ### Functions with the same blocks, and modules with the same globals -/

section SameBlocks

variable {F G : Function} (hblocks : G.blocks = F.blocks)
include hblocks

theorem Function.block?_congr (b : ℕ) : G.block? b = F.block? b := by
  rw [Function.block?, Function.block?, hblocks]

theorem Function.successors_congr (b : ℕ) : G.successors b = F.successors b := by
  rw [Function.successors, Function.successors, Function.block?_congr hblocks]

theorem Function.pathTo_congr {p : List ℕ} {b : ℕ} : G.PathTo p b ↔ F.PathTo p b := by
  have hsucc : (fun b₁ b₂ => b₂ ∈ G.successors b₁) = fun b₁ b₂ => b₂ ∈ F.successors b₁ := by
    funext b₁ b₂
    rw [Function.successors_congr hblocks]
  constructor
  · rintro ⟨hstart, hedges, hstop⟩
    exact ⟨hblocks ▸ hstart, hsucc ▸ hedges, hstop⟩
  · rintro ⟨hstart, hedges, hstop⟩
    exact ⟨hblocks.symm ▸ hstart, hsucc.symm ▸ hedges, hstop⟩

theorem Function.definedOn_congr {p : List ℕ} {d : ℕ} : G.DefinedOn p d ↔ F.DefinedOn p d := by
  simp only [Function.DefinedOn, Function.block?_congr hblocks]

theorem Function.definedBefore_congr {b d : ℕ} {pre : List Instruction} :
    G.DefinedBefore b pre d ↔ F.DefinedBefore b pre d := by
  simp only [Function.DefinedBefore, Function.pathTo_congr hblocks, Function.definedOn_congr hblocks]

end SameBlocks

/-- A well-formed function stays so in a module that has the globals it uses. -/
theorem Function.WellFormed.ofModule {M N : Module} {F : Function} (h : F.WellFormed M)
    (hrefs : ∀ I ∈ F.insts, ∀ v ∈ I.operands, v.GlobalsIn N)
    (hintr : ∀ G ∈ N.functions, G.intrinsic.isSome = true →
      ∃ H ∈ M.functions, H.id = G.id ∧ H.intrinsic = G.intrinsic)
    (hpers : ∀ c, F.personality = some c →
      ∀ g, c.mentions g = true → ∃ V ∈ N.globalValues, V.id = g) : F.WellFormed N := by
  refine { h with globalRefs := hrefs, vaStart := ?_, gcCalls := ?_, personalityRef := hpers }
  · intro I hI g ty hcallee G hG hid hva
    obtain ⟨H, hH, hid', hsame⟩ := hintr G hG (by rw [hva]; rfl)
    exact h.vaStart I hI g ty hcallee H hH (hid'.trans hid) (hsame.trans hva)
  · intro I hI g ty hcallee G hG hid hgc
    obtain ⟨H, hH, hid', hsame⟩ := hintr G hG (Option.isSome_of_any hgc)
    exact h.gcCalls I hI g ty hcallee H hH (hid'.trans hid) (hsame ▸ hgc)

end SnippetsLlvm.Ir
