import SnippetsLlvm.Ir.WellFormed
import Mathlib.Data.List.Infix

/-!
# A verifier

Well-formedness speaks about all paths of a control-flow graph and about all uses inside constants; this
file decides a condition that implies it.  It accepts modules without phi nodes in which a value is used in
the block that defines it or comes from the entry block, which dominates every other block.

* `Constant.uses` — the globals a constant uses, as a list;
* `Module.Verified` — the decidable condition;
* `Module.Verified.wellFormed` — **it implies well-formedness**.
-/

namespace SnippetsLlvm.Ir

/-! ### The globals in a constant -/

mutual
/-- The globals a constant uses. -/
def Constant.uses : Constant → List ℕ
  | .array _ es | .struct _ es | .vector _ es => Constant.usesAll es
  | .expr _ _ es => Constant.usesAll es
  | .blockAddress f _ => [f]
  | .global g _ _ | .dsoLocalEquivalent g _ | .noCFI g _ => [g]
  | _ => []
/-- The globals a list of constants uses. -/
def Constant.usesAll : List Constant → List ℕ
  | [] => []
  | c :: cs => c.uses ++ Constant.usesAll cs
end

mutual
theorem Constant.mem_uses_of_mentions {g : ℕ} (c : Constant) (h : c.mentions g = true) :
    g ∈ c.uses := by
  cases c with
  | array _ es => exact Constant.mem_usesAll es h
  | struct _ es => exact Constant.mem_usesAll es h
  | vector _ es => exact Constant.mem_usesAll es h
  | expr _ _ es => exact Constant.mem_usesAll es h
  | _ => simp_all [Constant.mentions, Constant.uses]
theorem Constant.mem_usesAll {g : ℕ} (cs : List Constant) (h : Constant.anyMentions g cs = true) :
    g ∈ Constant.usesAll cs := by
  cases cs with
  | nil => cases h
  | cons c cs =>
    rw [Constant.anyMentions, Bool.or_eq_true] at h
    rw [Constant.usesAll, List.mem_append]
    exact h.imp (Constant.mem_uses_of_mentions c) (Constant.mem_usesAll cs)
end

/-! ### Blocks -/

/-- The decidable form of `FollowedByRet`. -/
def followedCheck (I : Instruction) : List Instruction → Bool
  | [r] => r.opcode = .ret
  | [c, r] => c.opcode = .cast .bitCast && r.opcode = .ret &&
    match c.operands with
    | [.inst d op ty] => d = I.id && op = I.opcode && ty = I.type
    | _ => false
  | _ => false

theorem followedByRet_of_check {I : Instruction} {post : List Instruction}
    (h : followedCheck I post = true) : FollowedByRet I post := by
  unfold followedCheck at h
  split at h
  · rename_i r
    exact .inl ⟨r, rfl, by simpa using h⟩
  · rename_i c r
    simp only [Bool.and_eq_true, decide_eq_true_eq] at h
    obtain ⟨⟨hc, hr⟩, h⟩ := h
    split at h
    · rename_i d op ty hops
      simp only [Bool.and_eq_true, decide_eq_true_eq] at h
      obtain ⟨⟨rfl, rfl⟩, rfl⟩ := h
      exact .inr ⟨c, r, rfl, hc, hops, hr⟩
    · cases h
  · cases h

/-- A `musttail` call at the front of these instructions is followed by the `ret`. -/
def mustTailFollowed : List Instruction → Bool
  | I :: post => !I.isMustTail || followedCheck I post
  | [] => true

/-- The decidable rules on a block. -/
def BasicBlock.Verified (B : BasicBlock) : Prop :=
  B.getTerminator.isSome = true ∧ (∀ I ∈ B.insts.dropLast, I.isTerminator = false) ∧
    B.insts.Pairwise (fun J I => I.isPhi = true → J.isPhi = true) ∧
    B.insts.Pairwise (fun J I => I.isEHPad = true → J.isPhi = true) ∧
    ∀ l ∈ B.insts.tails, mustTailFollowed l = true

instance (B : BasicBlock) : Decidable B.Verified := by
  unfold BasicBlock.Verified
  infer_instance

/-- What holds of every pair in order holds of an element and those before it. -/
theorem pairwise_before {α : Type} {R : α → α → Prop} {l pre post : List α} {x : α}
    (h : l.Pairwise R) (hl : l = pre ++ x :: post) : ∀ y ∈ pre, R y x := by
  subst hl
  exact fun y hy => (List.pairwise_append.mp h).2.2 y hy x List.mem_cons_self

theorem BasicBlock.Verified.wellFormed {B : BasicBlock} (h : B.Verified) : B.WellFormed := by
  obtain ⟨hterm, hbody, hphi, hpad, htail⟩ := h
  refine ⟨?_, fun pre I post hB hI => ?_, fun pre I post hB hI => ?_, fun pre I post hB hI => ?_⟩
  · rw [BasicBlock.getTerminator] at hterm
    cases hlast : B.insts.getLast? with
    | none => simp [hlast] at hterm
    | some t =>
      have hne : B.insts ≠ [] := by
        rintro hnil
        simp [hnil] at hlast
      refine ⟨B.insts.dropLast, t, ?_, ?_, hbody⟩
      · rw [List.getLast?_eq_some_getLast hne, Option.some.injEq] at hlast
        rw [← hlast, List.dropLast_append_getLast]
      · by_contra ht
        simp [hlast, ht] at hterm
  · exact fun J hJ => pairwise_before hphi hB J hJ hI
  · exact fun J hJ => pairwise_before hpad hB J hJ hI
  · have hmem : I :: post ∈ B.insts.tails := by
      rw [List.mem_tails, hB]
      exact List.suffix_append pre (I :: post)
    have hfollow := htail _ hmem
    rw [mustTailFollowed, hI, Bool.not_true, Bool.false_or] at hfollow
    exact followedByRet_of_check hfollow

/-! ### Functions -/

namespace Function

/-- A local operand of an instruction of the block `b` after the instructions `pre` is one of them, or a
value of the entry block. -/
def definedCheck (F : Function) (b : ℕ) (pre : List Instruction) : Value → Bool
  | .inst d _ _ => pre.any (·.id = d) ||
    match F.blocks.head? with
    | some E => E.id ≠ b && E.insts.any fun J => J.id = d && !J.isTerminator
    | none => false
  | _ => true

theorem definedBefore_of_check {F : Function} {b d : ℕ} {op : Opcode} {ty : Ty}
    {pre : List Instruction} (h : F.definedCheck b pre (.inst d op ty) = true) :
    F.DefinedBefore b pre d := by
  rw [definedCheck, Bool.or_eq_true] at h
  rcases h with h | h
  · obtain ⟨J, hJ, hid⟩ := List.any_eq_true.mp h
    exact .inl ⟨J, hJ, by simpa using hid⟩
  · refine .inr fun p hp => ?_
    split at h
    · rename_i E hE
      simp only [Bool.and_eq_true, decide_eq_true_eq, List.any_eq_true] at h
      obtain ⟨hne, J, hJ, hid, hplain⟩ := h
      have hstart := hp.start
      rw [hE, Option.map_some] at hstart
      cases p with
      | nil => cases hstart
      | cons e p =>
        rw [List.head?_cons, Option.some.injEq] at hstart
        subst hstart
        cases p with
        | nil =>
          have hstop := hp.stop
          rw [List.getLast?_singleton, Option.some.injEq] at hstop
          exact absurd hstop hne
        | cons b' p =>
          refine ⟨[], E.id, b', p, rfl, E, ?_, J, hJ, hid, fun ⟨ft, hop⟩ => ?_⟩
          · rw [block?]
            cases hB : F.blocks with
            | nil => simp [hB] at hE
            | cons B Bs =>
              rw [hB, List.head?_cons, Option.some.injEq] at hE
              simp [hE]
          · simp [Instruction.isTerminator, hop, Opcode.isTerminator] at hplain
    · cases h

end Function

/-- The decidable form of `Value.RefersInto`. -/
def Value.refersCheck (F : Function) : Value → Bool
  | .inst d op ty => F.insts.any fun J => J.id = d && J.opcode = op && J.type = ty
  | .arg i ty => F.type.params[i]? = some ty
  | _ => true

/-- The decidable form of `Value.GlobalsIn`. -/
def Value.globalsCheck (M : Module) : Value → Bool
  | .const (.global g k ty) => M.globalValues.any fun V => V.id = g && V.kind = k && V.getType = ty
  | .const c => c.uses.all fun g => M.globalValues.any fun V => V.id = g
  | _ => true

/-- The decidable typing rules. -/
def Instruction.typeCheck (I : Instruction) : Bool :=
  match I.opcode with
  | .load => match I.operands with
    | [p] => p.getType.pointee = some I.type
    | _ => false
  | .store => match I.operands with
    | [v, p] => p.getType.pointee = some v.getType && I.type = .void
    | _ => false
  | .binary _ => match I.operands with
    | [x, y] => x.getType = I.type && y.getType = I.type
    | _ => false
  | .alloca ty => I.type.pointee = some ty
  | .phi _ => I.operands.all fun v => v.getType = I.type
  | .select => match I.operands with
    | [_, x, y] => x.getType = I.type && y.getType = I.type
    | _ => false
  | .cast .ptrToInt | .cast .intToPtr => I.operands.length = 1
  | _ => true

/-- The decidable form of `Instruction.CallTyped`. -/
def Instruction.callCheck (I : Instruction) : Bool :=
  match I.callType with
  | some ft => I.operands.getLast?.map Value.getType = some ft.ptrTy && I.type = ft.ret &&
      (I.callArgs.map Value.getType).take ft.params.length = ft.params &&
      (ft.isVarArg || I.callArgs.length = ft.params.length)
  | none => true

/-- The decidable rules on a `ret` and on a `musttail` call. -/
def Instruction.protoCheck (F : Function) (I : Instruction) : Bool :=
  match I.opcode with
  | .ret => (I.operands.isEmpty && F.type.ret = .void) ||
      (I.operands.length = 1 && I.operands.all fun v => v.getType = F.type.ret)
  | .call ft true => ft.isVarArg = F.type.isVarArg && ft.params = F.type.params
  | _ => true

/-- The decidable form of the rule on what an `invoke` unwinds to. -/
def Instruction.invokeCheck (F : Function) (I : Instruction) : Bool :=
  match I.opcode with
  | .invoke _ => F.blocks.any fun B =>
      decide (I.blockOperands[1]? = some B.id) && B.insts.any Instruction.isEHPad
  | _ => true

/-- The decidable rules on a function. -/
structure Function.Verified (M : Module) (F : Function) : Prop where
  blocks : ∀ B ∈ F.blocks, B.Verified
  blockIds : (F.blocks.map BasicBlock.id).Nodup
  blockBound : ∀ B ∈ F.blocks, B.id < F.nextBlock
  valueIds : (F.insts.map Instruction.id).Nodup
  valueBound : ∀ I ∈ F.insts, I.id < F.nextValue
  successors : ∀ B ∈ F.blocks, ∀ b ∈ B.successors, b ∈ F.blocks.map BasicBlock.id
  entry : ∀ E ∈ F.blocks.head?, (∀ B ∈ F.blocks, E.id ∉ B.successors) ∧
    ∀ I ∈ E.insts, I.isEHPad = false
  noPhi : ∀ I ∈ F.insts, I.isPhi = false
  operands : ∀ I ∈ F.insts, ∀ v ∈ I.operands, v.refersCheck F = true ∧ v.globalsCheck M = true
  defined : ∀ B ∈ F.blocks, ∀ k < B.insts.length, ∀ I ∈ B.insts[k]?, ∀ v ∈ I.operands,
    F.definedCheck B.id (B.insts.take k) v = true
  typed : ∀ I ∈ F.insts, I.typeCheck = true ∧ I.callCheck = true ∧ I.protoCheck F = true
  pads : F.personality.isSome = true ∨ ∀ I ∈ F.insts, I.needsPersonality = false
  unwindDests : ∀ I ∈ F.insts, I.invokeCheck F = true
  vaStart : F.type.isVarArg = true ∨ ∀ G ∈ M.functions, G.intrinsic ≠ some .vaStart
  gcCalls : F.gc.isSome = true ∨ ∀ G ∈ M.functions, G.intrinsic.any Intrinsic.needsGC = false
  attributes : F.attributes.Fits F.type.ret F.unnamedAddr
  personality : ∀ c ∈ F.personality, ∀ g ∈ c.uses, ∃ V ∈ M.globalValues, V.id = g

instance (M : Module) (F : Function) : Decidable (F.Verified M) :=
  decidable_of_iff
    ((∀ B ∈ F.blocks, B.Verified) ∧ (F.blocks.map BasicBlock.id).Nodup ∧
      (∀ B ∈ F.blocks, B.id < F.nextBlock) ∧ (F.insts.map Instruction.id).Nodup ∧
      (∀ I ∈ F.insts, I.id < F.nextValue) ∧
      (∀ B ∈ F.blocks, ∀ b ∈ B.successors, b ∈ F.blocks.map BasicBlock.id) ∧
      (∀ E ∈ F.blocks.head?, (∀ B ∈ F.blocks, E.id ∉ B.successors) ∧
        ∀ I ∈ E.insts, I.isEHPad = false) ∧
      (∀ I ∈ F.insts, I.isPhi = false) ∧
      (∀ I ∈ F.insts, ∀ v ∈ I.operands, v.refersCheck F = true ∧ v.globalsCheck M = true) ∧
      (∀ B ∈ F.blocks, ∀ k < B.insts.length, ∀ I ∈ B.insts[k]?, ∀ v ∈ I.operands,
        F.definedCheck B.id (B.insts.take k) v = true) ∧
      (∀ I ∈ F.insts, I.typeCheck = true ∧ I.callCheck = true ∧ I.protoCheck F = true) ∧
      (F.personality.isSome = true ∨ ∀ I ∈ F.insts, I.needsPersonality = false) ∧
      (∀ I ∈ F.insts, I.invokeCheck F = true) ∧
      (F.type.isVarArg = true ∨ ∀ G ∈ M.functions, G.intrinsic ≠ some .vaStart) ∧
      (F.gc.isSome = true ∨ ∀ G ∈ M.functions, G.intrinsic.any Intrinsic.needsGC = false) ∧
      F.attributes.Fits F.type.ret F.unnamedAddr ∧
      ∀ c ∈ F.personality, ∀ g ∈ c.uses, ∃ V ∈ M.globalValues, V.id = g)
    ⟨fun ⟨h₁, h₂, h₃, h₄, h₅, h₆, h₇, h₈, h₉, h₁₀, h₁₁, h₁₂, h₁₃, h₁₄, h₁₅, h₁₆, h₁₇⟩ =>
      ⟨h₁, h₂, h₃, h₄, h₅, h₆, h₇, h₈, h₉, h₁₀, h₁₁, h₁₂, h₁₃, h₁₄, h₁₅, h₁₆, h₁₇⟩,
    fun ⟨h₁, h₂, h₃, h₄, h₅, h₆, h₇, h₈, h₉, h₁₀, h₁₁, h₁₂, h₁₃, h₁₄, h₁₅, h₁₆, h₁₇⟩ =>
      ⟨h₁, h₂, h₃, h₄, h₅, h₆, h₇, h₈, h₉, h₁₀, h₁₁, h₁₂, h₁₃, h₁₄, h₁₅, h₁₆, h₁₇⟩⟩

theorem Ty.pointee_eq_some {t u : Ty} : t.pointee = some u ↔ ∃ a, t = .pointer u a := by
  cases t <;> simp [Ty.pointee]

theorem Instruction.wellTyped_of_typeCheck {I : Instruction} (h : I.typeCheck = true) :
    I.WellTyped := by
  obtain ⟨id, op, ty, ops, dl⟩ := I
  cases op with
  | load =>
    simp only [typeCheck] at h
    split at h
    · obtain ⟨a, ha⟩ := Ty.pointee_eq_some.mp (of_decide_eq_true h)
      exact ⟨_, a, rfl, ha⟩
    · cases h
  | store =>
    simp only [typeCheck] at h
    split at h
    · simp only [Bool.and_eq_true, decide_eq_true_eq] at h
      obtain ⟨a, ha⟩ := Ty.pointee_eq_some.mp h.1
      exact ⟨_, _, a, rfl, ha, h.2⟩
    · cases h
  | binary op =>
    simp only [typeCheck] at h
    split at h
    · simp only [Bool.and_eq_true, decide_eq_true_eq] at h
      exact ⟨_, _, rfl, h⟩
    · cases h
  | alloca t => exact Ty.pointee_eq_some.mp (of_decide_eq_true h)
  | phi inc => simpa [WellTyped, typeCheck] using h
  | select =>
    simp only [typeCheck] at h
    split at h
    · simp only [Bool.and_eq_true, decide_eq_true_eq] at h
      exact ⟨_, _, _, rfl, h⟩
    · cases h
  | cast op =>
    cases op with
    | ptrToInt => exact List.length_eq_one_iff.mp (of_decide_eq_true h)
    | intToPtr => exact List.length_eq_one_iff.mp (of_decide_eq_true h)
    | _ => trivial
  | _ => trivial

theorem Instruction.callTyped_of_callCheck {I : Instruction} (h : I.callCheck = true)
    {ft : FunctionType} (hft : I.callType = some ft) : I.CallTyped ft := by
  simp only [callCheck, hft, Bool.and_eq_true, Bool.or_eq_true, decide_eq_true_eq] at h
  obtain ⟨⟨⟨hcallee, hresult⟩, hargs⟩, harity⟩ := h
  refine ⟨hcallee, hresult, hargs, fun hv => ?_⟩
  rw [hv] at harity
  exact harity.resolve_left Bool.false_ne_true

theorem Value.refersInto_of_check {F : Function} {v : Value} (h : v.refersCheck F = true) :
    v.RefersInto F := by
  cases v with
  | inst d op ty =>
    obtain ⟨J, hJ, h⟩ := List.any_eq_true.mp h
    simp only [Bool.and_eq_true, decide_eq_true_eq] at h
    exact ⟨J, hJ, h.1.1, h.1.2, h.2⟩
  | arg i ty => simpa [refersCheck, RefersInto] using h
  | _ => trivial

theorem Value.globalsIn_of_check {M : Module} {v : Value} (h : v.globalsCheck M = true) :
    v.GlobalsIn M := by
  unfold globalsCheck at h
  split at h
  · rename_i g k ty
    obtain ⟨V, hV, h⟩ := List.any_eq_true.mp h
    simp only [Bool.and_eq_true, decide_eq_true_eq] at h
    obtain ⟨⟨rfl, rfl⟩, rfl⟩ := h
    refine ⟨fun g k ty hc => ?_, fun g hg => ?_⟩
    · cases hc
      exact ⟨V, hV, rfl⟩
    · exact ⟨V, hV, by simpa [mentions, Constant.mentions] using hg⟩
  · rename_i c hne
    refine ⟨fun g k ty hc => ?_, fun g hg => ?_⟩
    · cases hc
      exact absurd rfl (hne g k ty)
    · have hmem := Constant.mem_uses_of_mentions c hg
      obtain ⟨V, hV, hid⟩ := List.any_eq_true.mp (List.all_eq_true.mp h g hmem)
      exact ⟨V, hV, of_decide_eq_true hid⟩
  · rename_i hne
    refine ⟨fun g k ty hc => ?_, fun g hg => ?_⟩
    · subst hc
      exact absurd rfl (hne _)
    · cases v with
      | const c => exact absurd rfl (hne c)
      | _ => cases hg

theorem Ty.Congruent.refl (t : Ty) : t.Congruent t := by
  cases t <;> simp [Ty.Congruent]

theorem Function.Verified.wellFormed {M : Module} {F : Function} (h : F.Verified M) :
    F.WellFormed M where
  blocks B hB := (h.blocks B hB).wellFormed
  blockIds := h.blockIds
  blockBound := h.blockBound
  valueIds := h.valueIds
  valueBound := h.valueBound
  successors := h.successors
  entryPreds E hE := (h.entry E hE).1
  entryPlain E hE I hI := by
    have hmem : I ∈ F.insts := List.mem_flatMap.mpr ⟨E, List.mem_of_mem_head? hE, hI⟩
    exact ⟨h.noPhi I hmem, (h.entry E hE).2 I hI⟩
  localRefs I hI v hv := Value.refersInto_of_check (h.operands I hI v hv).1
  globalRefs I hI v hv := Value.globalsIn_of_check (h.operands I hI v hv).2
  defined B hB pre I post hins hphi d op ty hop := by
    have hk : B.insts[pre.length]? = some I := by rw [hins]; simp
    have hlt : pre.length < B.insts.length := by rw [hins]; simp
    have hcheck := h.defined B hB pre.length hlt I hk _ hop
    rw [hins, List.take_left] at hcheck
    exact Function.definedBefore_of_check hcheck
  phis B hB I hI inc hop := by
    have hphi := h.noPhi I (List.mem_flatMap.mpr ⟨B, hB, hI⟩)
    rw [Instruction.isPhi, hop] at hphi
    cases hphi
  typed I hI := Instruction.wellTyped_of_typeCheck (h.typed I hI).1
  calls I hI ft hft := Instruction.callTyped_of_callCheck (h.typed I hI).2.1 hft
  rets I hI hop := by
    have hproto := (h.typed I hI).2.2
    simp only [Instruction.protoCheck, hop, Bool.and_eq_true, Bool.or_eq_true, decide_eq_true_eq,
      List.isEmpty_iff, List.all_eq_true] at hproto
    rcases hproto with hproto | ⟨hlen, hall⟩
    · exact .inl hproto
    · obtain ⟨v, hv⟩ := List.length_eq_one_iff.mp hlen
      exact .inr ⟨v, hv, hall v (by simp [hv])⟩
  pads := fun ⟨I, hI, hpad⟩ => h.pads.resolve_right fun hnone => by
    rw [hnone I hI] at hpad
    cases hpad
  unwindDests I hI := by
    rintro ⟨ft, hop⟩
    have hcheck := h.unwindDests I hI
    simp only [Instruction.invokeCheck, hop, List.any_eq_true, Bool.and_eq_true, decide_eq_true_eq]
      at hcheck
    exact hcheck
  mustTailProto I hI ft hop := by
    have hproto := (h.typed I hI).2.2
    simp only [Instruction.protoCheck, hop, Bool.and_eq_true, decide_eq_true_eq] at hproto
    refine ⟨hproto.1, ?_⟩
    rw [hproto.2]
    exact List.forall₂_same.mpr fun t _ => Ty.Congruent.refl t
  vaStart I hI g ty _ G hG _ hva := h.vaStart.resolve_right fun hnone => hnone G hG hva
  gcCalls I hI g ty _ G hG _ hgc := h.gcCalls.resolve_right fun hnone => by
    rw [hnone G hG] at hgc
    cases hgc
  attributes := h.attributes
  personalityRef c hc g hg := h.personality c hc g (Constant.mem_uses_of_mentions c hg)

/-! ### Modules -/

/-- The decidable rules on a module. -/
structure Module.Verified (M : Module) : Prop where
  ids : (M.globalValues.map GlobalValue.id).Nodup
  idBound : ∀ V ∈ M.globalValues, V.id < M.nextGlobal
  names : (M.names.filter (· ≠ "")).Nodup
  functions : ∀ F ∈ M.functions, F.Verified M
  initializers : ∀ G ∈ M.globals, ∀ c ∈ G.initializer,
    c.getType = G.valueType ∧ ∀ g ∈ c.uses, ∃ V ∈ M.globalValues, V.id = g
  aliasees : ∀ A ∈ M.aliases, ∀ g ∈ A.aliasee.uses, ∃ V ∈ M.globalValues, V.id = g
  resolvers : ∀ I ∈ M.ifuncs, ∀ g ∈ I.resolver.uses, ∃ V ∈ M.globalValues, V.id = g
  intrinsics : ∀ F ∈ M.functions, F.intrinsic.isSome = true → "llvm.".toList <+: F.name.toList

instance (M : Module) : Decidable M.Verified :=
  decidable_of_iff
    ((M.globalValues.map GlobalValue.id).Nodup ∧ (∀ V ∈ M.globalValues, V.id < M.nextGlobal) ∧
      (M.names.filter (· ≠ "")).Nodup ∧ (∀ F ∈ M.functions, F.Verified M) ∧
      (∀ G ∈ M.globals, ∀ c ∈ G.initializer,
        c.getType = G.valueType ∧ ∀ g ∈ c.uses, ∃ V ∈ M.globalValues, V.id = g) ∧
      (∀ A ∈ M.aliases, ∀ g ∈ A.aliasee.uses, ∃ V ∈ M.globalValues, V.id = g) ∧
      (∀ I ∈ M.ifuncs, ∀ g ∈ I.resolver.uses, ∃ V ∈ M.globalValues, V.id = g) ∧
      ∀ F ∈ M.functions, F.intrinsic.isSome = true → "llvm.".toList <+: F.name.toList)
    ⟨fun ⟨h₁, h₂, h₃, h₄, h₅, h₆, h₇, h₈⟩ => ⟨h₁, h₂, h₃, h₄, h₅, h₆, h₇, h₈⟩,
      fun ⟨h₁, h₂, h₃, h₄, h₅, h₆, h₇, h₈⟩ => ⟨h₁, h₂, h₃, h₄, h₅, h₆, h₇, h₈⟩⟩

/-- **A verified module is well-formed.** -/
theorem Module.Verified.wellFormed {M : Module} (h : M.Verified) : M.WellFormed where
  ids := h.ids
  idBound := h.idBound
  names := h.names
  functions F hF := (h.functions F hF).wellFormed
  initializers G hG c hc :=
    ⟨(h.initializers G hG c hc).1, fun g hg =>
      (h.initializers G hG c hc).2 g (Constant.mem_uses_of_mentions c hg)⟩
  aliasees A hA g hg := h.aliasees A hA g (Constant.mem_uses_of_mentions _ hg)
  resolvers I hI g hg := h.resolvers I hI g (Constant.mem_uses_of_mentions _ hg)
  intrinsics := h.intrinsics

/-! ### A module with a loop and two calls, and one that catches an exception -/

/-- `int busy();`. -/
def busyFn : Function :=
  ⟨1, "busy", ⟨.i32, [], false⟩, .external, ⟨[], []⟩, false, 0, none, none, none, none, [], 0, 0⟩

/-- `static void close() {}`. -/
def closeFn : Function :=
  ⟨2, "close", ⟨.void, [], false⟩, .internal, ⟨[], []⟩, false, 0, none, none, none, none,
    [⟨0, "entry", [⟨0, .ret, .void, [], false⟩]⟩], 1, 1⟩

/-- The call of `busy` with the value `n`. -/
def busyCall (n : ℕ) : Instruction :=
  ⟨n, .call ⟨.i32, [], false⟩ false, .i32,
    [.const (.global 1 .function (FunctionType.ptrTy ⟨.i32, [], false⟩))], false⟩

/-- `int main() { while (busy() & 1) {} close(); return 0; }`. -/
def pollMain : Function :=
  ⟨0, "main", ⟨.i32, [], false⟩, .external, ⟨["nounwind"], [.signExt]⟩, false, 0, none, none, none, none,
    [⟨0, "entry", [⟨0, .br, .void, [.block 1], false⟩]⟩,
      ⟨1, "while", [busyCall 1, ⟨2, .cast .trunc, .integer 1, [(busyCall 1).ref], false⟩,
        ⟨3, .br, .void, [.inst 2 (.cast .trunc) (.integer 1), .block 2, .block 1], false⟩]⟩,
      ⟨2, "end", [⟨4, .call ⟨.void, [], false⟩ false, .void,
          [.const (.global 2 .function (FunctionType.ptrTy ⟨.void, [], false⟩))], false⟩,
        ⟨5, .ret, .void, [.const (.int 32 0)], false⟩]⟩], 6, 3⟩

/-- The module of `pollMain`. -/
def pollModule : Module := ⟨[pollMain, busyFn, closeFn], [], [], [], [], 3, 0⟩

theorem pollModule_wellFormed : pollModule.WellFormed := Module.Verified.wellFormed (by decide)

/-- `int main() { try { f(); } catch (...) {} return 0; }`: the personality of `main` directs the unwinder to
its handler. -/
def catchMain : Function :=
  ⟨0, "main", ⟨.i32, [], false⟩, .external, ⟨[], []⟩, false, 0,
    some (.global 1 .function (FunctionType.ptrTy ⟨.i32, [], true⟩)), none, none, none,
    [⟨0, "entry", [⟨0, .invoke ⟨.void, [], false⟩, .void,
        [.block 1, .block 2, .const (.global 2 .function (FunctionType.ptrTy ⟨.void, [], false⟩))],
        false⟩]⟩,
      ⟨1, "done", [⟨1, .ret, .void, [.const (.int 32 0)], false⟩]⟩,
      ⟨2, "handler", [⟨2, .landingPad false, .struct [.i8Ptr, .i32], [.const (.pointerNull .i8Ptr)],
          false⟩,
        ⟨3, .br, .void, [.block 1], false⟩]⟩], 4, 3⟩

/-- `__gxx_personality_v0`. -/
def personalityFn : Function :=
  ⟨1, "__gxx_personality_v0", ⟨.i32, [], true⟩, .external, ⟨[], []⟩, false, 0, none, none, none, none, [], 0, 0⟩

/-- `void f()`, defined elsewhere. -/
def throwingFn : Function :=
  ⟨2, "f", ⟨.void, [], false⟩, .external, ⟨[], []⟩, false, 0, none, none, none, none, [], 0, 0⟩

/-- The module of `catchMain`. -/
def catchModule : Module := ⟨[catchMain, personalityFn, throwingFn], [], [], [], [], 3, 0⟩

theorem catchModule_wellFormed : catchModule.WellFormed := Module.Verified.wellFormed (by decide)

end SnippetsLlvm.Ir
