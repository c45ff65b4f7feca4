import SnippetsLlvm.Ir.WellFormed

/-!
# Functions that grow

Instrumentation puts instructions into the blocks of a function and may give it blocks that nothing leads
to.  The control-flow graph between the old blocks stays, so that a value that was there before a use still
is.

* `Function.Grows` — the same graph, with at least the old instructions in each block;
* `Fresh` — what is asked of an instruction that was not there;
* `Function.WellFormed.grow` — **a function that grew by fresh instructions is well-formed**.
-/

namespace SnippetsLlvm.Ir

/-! ### The same graph -/

/-- `G` has the control-flow graph of `F`, and in each block of `F` at least the instructions `F` has. -/
structure Function.Grows (F G : Function) : Prop where
  head : F.blocks ≠ [] → G.blocks.head?.map BasicBlock.id = F.blocks.head?.map BasicBlock.id
  successors : ∀ b, G.successors b = F.successors b
  blocks : ∀ b B, F.block? b = some B → ∃ B', G.block? b = some B' ∧ ∀ I ∈ B.insts, I ∈ B'.insts

namespace Function.Grows

variable {F G : Function} (h : F.Grows G)
include h

theorem pathTo (hne : F.blocks ≠ []) {p : List ℕ} {b : ℕ} : G.PathTo p b ↔ F.PathTo p b := by
  have hsucc : (fun b₁ b₂ => b₂ ∈ G.successors b₁) = fun b₁ b₂ => b₂ ∈ F.successors b₁ := by
    funext b₁ b₂
    rw [h.successors]
  constructor
  · rintro ⟨hstart, hedges, hstop⟩
    exact ⟨hstart.trans (h.head hne), hsucc ▸ hedges, hstop⟩
  · rintro ⟨hstart, hedges, hstop⟩
    exact ⟨hstart.trans (h.head hne).symm, hsucc.symm ▸ hedges, hstop⟩

theorem definedOn {p : List ℕ} {d : ℕ} (hd : F.DefinedOn p d) : G.DefinedOn p d := by
  obtain ⟨pre, b, b', post, hp, B, hB, I, hI, hid, hinvoke⟩ := hd
  obtain ⟨B', hB', hsub⟩ := h.blocks b B hB
  exact ⟨pre, b, b', post, hp, B', hB', I, hsub I hI, hid, hinvoke⟩

theorem definedBefore (hne : F.blocks ≠ []) {b d : ℕ} {pre pre' : List Instruction}
    (hpre : ∀ J ∈ pre, J ∈ pre') (hd : F.DefinedBefore b pre d) : G.DefinedBefore b pre' d := by
  rcases hd with ⟨J, hJ, hid⟩ | hd
  · exact .inl ⟨J, hpre J hJ, hid⟩
  · exact .inr fun p hp => h.definedOn (hd p ((h.pathTo hne).mp hp))

end Function.Grows

/-- A block of a function, found by its identity. -/
theorem Function.block?_of_mem {F : Function} (hids : (F.blocks.map BasicBlock.id).Nodup)
    {B : BasicBlock} (hB : B ∈ F.blocks) : F.block? B.id = some B :=
  Module.find?_of_mem_nodup hids hB

theorem Function.mem_of_block? {F : Function} {b : ℕ} {B : BasicBlock} (h : F.block? b = some B) :
    B ∈ F.blocks ∧ B.id = b :=
  ⟨List.mem_of_find?_eq_some h, by simpa using List.find?_some h⟩

/-- The edges of the graph, over blocks and over identities. -/
theorem Function.mem_successors_iff {F : Function} (hids : (F.blocks.map BasicBlock.id).Nodup)
    {b c : ℕ} : c ∈ F.successors b ↔ ∃ P ∈ F.blocks, P.id = b ∧ c ∈ P.successors := by
  rw [Function.successors]
  constructor
  · intro h
    cases hB : F.block? b with
    | none => rw [hB] at h; cases h
    | some B =>
      rw [hB] at h
      exact ⟨B, (F.mem_of_block? hB).1, (F.mem_of_block? hB).2, h⟩
  · rintro ⟨P, hP, rfl, hc⟩
    rw [F.block?_of_mem hids hP]
    exact hc

/-- An instruction of a function, with its place. -/
theorem Function.exists_place {F : Function} {I : Instruction} (hI : I ∈ F.insts) :
    ∃ B ∈ F.blocks, ∃ pre post, B.insts = pre ++ I :: post := by
  obtain ⟨B, hB, hI⟩ := List.mem_flatMap.mp hI
  obtain ⟨pre, post, hsplit⟩ := List.append_of_mem hI
  exact ⟨B, hB, pre, post, hsplit⟩

theorem Function.mem_insts_of_place {F : Function} {B : BasicBlock} (hB : B ∈ F.blocks)
    {pre post : List Instruction} {I : Instruction} (hsplit : B.insts = pre ++ I :: post) :
    I ∈ F.insts :=
  List.mem_flatMap.mpr ⟨B, hB, by rw [hsplit]; exact List.mem_append_right _ List.mem_cons_self⟩

/-- `G` has what the rules on a body ask of the function of the body, as `F` has it. -/
structure Function.SameHeader (F G : Function) : Prop where
  type : G.type = F.type
  attributes : G.attributes = F.attributes
  unnamedAddr : G.unnamedAddr = F.unnamedAddr
  personality : G.personality = F.personality
  gc : G.gc = F.gc

/-! ### Fresh instructions -/

/-- What is asked of an instruction, after the instructions `pre` of its block, that a function did not
have before. -/
structure Fresh (M : Module) (G : Function) (pre : List Instruction) (I : Instruction) : Prop where
  notPhi : I.isPhi = false
  noPersonality : I.needsPersonality = false
  notInvoke : ∀ ft, I.opcode ≠ .invoke ft
  notMustTail : I.isMustTail = false
  localRefs : ∀ v ∈ I.operands, v.RefersInto G
  globalRefs : ∀ v ∈ I.operands, v.GlobalsIn M
  defined : ∀ d op ty, .inst d op ty ∈ I.operands → ∃ J ∈ pre, J.id = d
  typed : I.WellTyped
  calls : ∀ ft, I.callType = some ft → I.CallTyped ft
  rets : I.opcode = .ret → I.operands = [] ∧ G.type.ret = .void
  notIntrinsic : ∀ g ty, I.calledOperand = some (.const (.global g .function ty)) →
    ∀ H ∈ M.functions, H.id = g → H.intrinsic = none

theorem Fresh.notPad {M : Module} {G : Function} {pre : List Instruction} {I : Instruction}
    (h : Fresh M G pre I) : I.isEHPad = false :=
  Instruction.isEHPad_of_needsPersonality h.noPersonality

/-- An instruction of `F` that stands in the block `b` of the grown function, after at least what it stood
after before. -/
def KeptAt (F : Function) (b : ℕ) (pre : List Instruction) (I : Instruction) : Prop :=
  ∃ B ∈ F.blocks, B.id = b ∧ ∃ pre₀ post₀, B.insts = pre₀ ++ I :: post₀ ∧ ∀ J ∈ pre₀, J ∈ pre

theorem KeptAt.mem_insts {F : Function} {b : ℕ} {pre : List Instruction} {I : Instruction}
    (h : KeptAt F b pre I) : I ∈ F.insts := by
  obtain ⟨B, hB, -, pre₀, post₀, hsplit, -⟩ := h
  exact F.mem_insts_of_place hB hsplit

section Grow

variable {M : Module} {F G : Function} (h : F.WellFormed M) (hg : F.Grows G)
include h hg

theorem Function.Grows.mem_ids {b : ℕ} (hb : b ∈ F.blocks.map BasicBlock.id) :
    b ∈ G.blocks.map BasicBlock.id := by
  obtain ⟨B, hB, rfl⟩ := List.mem_map.mp hb
  obtain ⟨B', hB', -⟩ := hg.blocks B.id B (F.block?_of_mem h.blockIds hB)
  obtain ⟨hmem, hid⟩ := G.mem_of_block? hB'
  exact hid ▸ List.mem_map_of_mem hmem

theorem Function.Grows.mem_insts {I : Instruction} (hI : I ∈ F.insts) : I ∈ G.insts := by
  obtain ⟨B, hB, hI⟩ := List.mem_flatMap.mp hI
  obtain ⟨B', hB', hsub⟩ := hg.blocks B.id B (F.block?_of_mem h.blockIds hB)
  exact List.mem_flatMap.mpr ⟨B', (G.mem_of_block? hB').1, hsub I hI⟩

theorem Function.Grows.refersInto (htype : G.type = F.type) {v : Value} (hv : v.RefersInto F) :
    v.RefersInto G := by
  cases v with
  | inst d op ty =>
    obtain ⟨J, hJ, hprops⟩ := hv
    exact ⟨J, hg.mem_insts h hJ, hprops⟩
  | arg i ty =>
    show G.type.params[i]? = some ty
    rw [htype]
    exact hv
  | _ => trivial

/-- The entry block of the grown function is the one of the old function, which has a kept instruction. -/
theorem Function.Grows.entry_eq {E B : BasicBlock} (hE : G.blocks.head? = some E) (hB : B ∈ F.blocks)
    (hid : B.id = E.id) : F.blocks.head? = some B := by
  have hhead := hg.head (List.ne_nil_of_mem hB)
  rw [hE] at hhead
  cases hF : F.blocks.head? with
  | none => rw [hF] at hhead; cases hhead
  | some E₀ =>
    rw [hF, Option.map_some, Option.map_some, Option.some.injEq] at hhead
    have h₀ := F.block?_of_mem h.blockIds (List.mem_of_head? hF)
    have h₁ := F.block?_of_mem h.blockIds hB
    rw [hid, hhead, h₀] at h₁
    exact h₁

/-- The edges are those of the old function. -/
theorem Function.Grows.edge (hids : (G.blocks.map BasicBlock.id).Nodup) {P : BasicBlock}
    (hP : P ∈ G.blocks) {c : ℕ} (hc : c ∈ P.successors) :
    ∃ P₀ ∈ F.blocks, P₀.id = P.id ∧ c ∈ P₀.successors := by
  have hmem := (G.mem_successors_iff hids).mpr ⟨P, hP, rfl, hc⟩
  rw [hg.successors] at hmem
  exact (F.mem_successors_iff h.blockIds).mp hmem

omit hg in
/-- Identities drawn from the counter of the function are new. -/
theorem valueIds_append (k : ℕ) :
    (F.insts.map Instruction.id ++ List.range' F.nextValue k).Nodup := by
  refine List.nodup_append.mpr ⟨h.valueIds, List.nodup_range', fun d hd e he => ?_⟩
  obtain ⟨I, hI, rfl⟩ := List.mem_map.mp hd
  have h₁ := h.valueBound I hI
  have h₂ := (List.mem_range'_1.mp he).1
  omega

/-- **A function that grew by fresh instructions is well-formed.** -/
theorem Function.WellFormed.grow (hheader : F.SameHeader G)
    (hblocks : ∀ B ∈ G.blocks, B.WellFormed) (hids : (G.blocks.map BasicBlock.id).Nodup)
    (hbound : ∀ B ∈ G.blocks, B.id < G.nextBlock) {k : ℕ} (hnext : G.nextValue = F.nextValue + k)
    (hvalues : (G.insts.map Instruction.id).Perm
      (F.insts.map Instruction.id ++ List.range' F.nextValue k))
    (horigin : ∀ B ∈ G.blocks, ∀ pre I post, B.insts = pre ++ I :: post →
      KeptAt F B.id pre I ∨ Fresh M G pre I) : G.WellFormed M := by
  have htype := hheader.type
  have hinsts : ∀ I ∈ G.insts, I ∈ F.insts ∨ ∃ pre, Fresh M G pre I := by
    intro I hI
    obtain ⟨B, hB, pre, post, hsplit⟩ := G.exists_place hI
    exact (horigin B hB pre I post hsplit).imp KeptAt.mem_insts fun hfresh => ⟨pre, hfresh⟩
  refine
    { blocks := hblocks
      blockIds := hids
      blockBound := hbound
      valueIds := hvalues.nodup_iff.mpr (valueIds_append h k)
      valueBound := ?_
      successors := ?_
      entryPreds := ?_
      entryPlain := ?_
      localRefs := ?_
      globalRefs := ?_
      defined := ?_
      phis := ?_
      typed := ?_
      calls := ?_
      rets := ?_
      pads := ?_
      unwindDests := ?_
      mustTailProto := ?_
      vaStart := ?_
      gcCalls := ?_
      attributes := ?_
      personalityRef := fun c hc => h.personalityRef c (hheader.personality ▸ hc) }
  · intro I hI
    rcases List.mem_append.mp (hvalues.mem_iff.mp (List.mem_map_of_mem hI)) with hid | hid
    · obtain ⟨J, hJ, hid⟩ := List.mem_map.mp hid
      have := h.valueBound J hJ
      omega
    · have := (List.mem_range'_1.mp hid).2
      omega
  · intro B hB b hb
    obtain ⟨P, hP, -, hb⟩ := hg.edge h hids hB hb
    exact hg.mem_ids h (h.successors P hP b hb)
  · intro E hE B hB hb
    obtain ⟨P, hP, -, hb⟩ := hg.edge h hids hB hb
    obtain ⟨E₀, hE₀, hid⟩ := List.mem_map.mp (h.successors P hP E.id hb)
    exact h.entryPreds E₀ (hg.entry_eq h hE hE₀ hid) P hP (hid ▸ hb)
  · intro E hE I hI
    obtain ⟨pre, post, hsplit⟩ := List.append_of_mem hI
    rcases horigin E (List.mem_of_head? hE) pre I post hsplit with ⟨B, hB, hid, p, q, hB', -⟩ | hfresh
    · exact h.entryPlain B (hg.entry_eq h hE hB hid) I (by rw [hB']; simp)
    · exact ⟨hfresh.notPhi, hfresh.notPad⟩
  · intro I hI v hv
    rcases hinsts I hI with hI | ⟨pre, hfresh⟩
    · exact hg.refersInto h htype (h.localRefs I hI v hv)
    · exact hfresh.localRefs v hv
  · intro I hI v hv
    rcases hinsts I hI with hI | ⟨pre, hfresh⟩
    · exact h.globalRefs I hI v hv
    · exact hfresh.globalRefs v hv
  · intro B hB pre I post hsplit hphi d op ty hd
    rcases horigin B hB pre I post hsplit with ⟨B₀, hB₀, hid, p, q, hB', hpre⟩ | hfresh
    · have hold := h.defined B₀ hB₀ p I q hB' hphi d op ty hd
      rw [hid] at hold
      exact hg.definedBefore (List.ne_nil_of_mem hB₀) hpre hold
    · exact .inl (hfresh.defined d op ty hd)
  · intro B hB I hI inc hinc
    obtain ⟨pre, post, hsplit⟩ := List.append_of_mem hI
    rcases horigin B hB pre I post hsplit with ⟨B₀, hB₀, hid, p, q, hB', -⟩ | hfresh
    · obtain ⟨hlen, hpreds, hvals⟩ := h.phis B₀ hB₀ I (by rw [hB']; simp) inc hinc
      rw [hid] at hpreds hvals
      refine ⟨hlen, fun b => ?_, fun v b hvb d op ty hv p hp => ?_⟩
      · rw [hpreds b, ← F.mem_successors_iff h.blockIds, ← G.mem_successors_iff hids, hg.successors]
      · exact hg.definedOn
          (hvals v b hvb d op ty hv p ((hg.pathTo (List.ne_nil_of_mem hB₀)).mp hp))
    · have hno := hfresh.notPhi
      rw [Instruction.isPhi, hinc] at hno
      cases hno
  · intro I hI
    rcases hinsts I hI with hI | ⟨pre, hfresh⟩
    · exact h.typed I hI
    · exact hfresh.typed
  · intro I hI
    rcases hinsts I hI with hI | ⟨pre, hfresh⟩
    · exact h.calls I hI
    · exact hfresh.calls
  · intro I hI hret
    rcases hinsts I hI with hI | ⟨pre, hfresh⟩
    · rw [htype]
      exact h.rets I hI hret
    · exact .inl (hfresh.rets hret)
  · rintro ⟨I, hI, hpad⟩
    rcases hinsts I hI with hI | ⟨pre, hfresh⟩
    · rw [hheader.personality]
      exact h.pads ⟨I, hI, hpad⟩
    · rw [hfresh.noPersonality] at hpad
      cases hpad
  · rintro I hI ⟨ft, hop⟩
    rcases hinsts I hI with hI | ⟨pre, hfresh⟩
    · obtain ⟨B, hB, hdest, J, hJ, hpad⟩ := h.unwindDests I hI ⟨ft, hop⟩
      obtain ⟨B', hB', hsub⟩ := hg.blocks B.id B (F.block?_of_mem h.blockIds hB)
      obtain ⟨hmem, hid⟩ := G.mem_of_block? hB'
      exact ⟨B', hmem, hid ▸ hdest, J, hsub J hJ, hpad⟩
    · exact absurd hop (hfresh.notInvoke ft)
  · intro I hI ft hcall
    rcases hinsts I hI with hI | ⟨pre, hfresh⟩
    · rw [htype]
      exact h.mustTailProto I hI ft hcall
    · have hno := hfresh.notMustTail
      rw [Instruction.isMustTail, hcall] at hno
      cases hno
  · intro I hI g ty hcallee H hH hid hva
    rcases hinsts I hI with hI | ⟨pre, hfresh⟩
    · rw [htype]
      exact h.vaStart I hI g ty hcallee H hH hid hva
    · rw [hfresh.notIntrinsic g ty hcallee H hH hid] at hva
      cases hva
  · intro I hI g ty hcallee H hH hid hgc
    rcases hinsts I hI with hI | ⟨pre, hfresh⟩
    · rw [hheader.gc]
      exact h.gcCalls I hI g ty hcallee H hH hid hgc
    · rw [hfresh.notIntrinsic g ty hcallee H hH hid] at hgc
      cases hgc
  · rw [hheader.attributes, hheader.unnamedAddr, htype]
    exact h.attributes

end Grow

/-! ### Instructions put into blocks -/

/-- A place in two lists put together is a place in one of them. -/
theorem place_append {α : Type} {pre post l₁ l₂ : List α} {x : α} (h : pre ++ x :: post = l₁ ++ l₂) :
    (∃ l, l₁ = pre ++ x :: l ∧ post = l ++ l₂) ∨ ∃ l, l₂ = l ++ x :: post ∧ pre = l₁ ++ l := by
  rcases List.append_eq_append_iff.mp h with ⟨l, h₁, h₂⟩ | ⟨l, h₁, h₂⟩
  · cases l with
    | nil =>
      rw [List.append_nil] at h₁
      exact .inr ⟨[], h₂.symm, by rw [List.append_nil, h₁]⟩
    | cons y l =>
      rw [List.cons_append, List.cons.injEq] at h₂
      obtain ⟨rfl, h₂⟩ := h₂
      exact .inl ⟨l, h₁, h₂⟩
  · exact .inr ⟨l, h₂, h₁⟩

/-- `B'` is `B` with the instructions `new` put in at some place before the terminator. -/
structure Inserted (B B' : BasicBlock) (new : List Instruction) where
  front : List Instruction
  back : List Instruction
  id_eq : B'.id = B.id
  old_eq : B.insts = front ++ back
  new_eq : B'.insts = front ++ new ++ back
  back_ne : back ≠ []

namespace Inserted

variable {B B' : BasicBlock} {new : List Instruction} (K : Inserted B B' new)
include K

theorem getTerminator_eq : B'.getTerminator = B.getTerminator := by
  rw [BasicBlock.getTerminator, BasicBlock.getTerminator, K.new_eq, K.old_eq,
    List.getLast?_append_of_ne_nil _ K.back_ne, List.getLast?_append_of_ne_nil _ K.back_ne]

theorem mem_insts {I : Instruction} (hI : I ∈ B.insts) : I ∈ B'.insts := by
  rw [K.old_eq] at hI
  rw [K.new_eq]
  rcases List.mem_append.mp hI with hI | hI
  · exact List.mem_append_left _ (List.mem_append_left _ hI)
  · exact List.mem_append_right _ hI

theorem perm : B'.insts.Perm (B.insts ++ new) := by
  rw [K.old_eq, K.new_eq, List.append_assoc, List.append_assoc]
  exact List.perm_append_comm.append_left _

/-- A place in the new block: before, among or after what was put in. -/
theorem place {pre post : List Instruction} {I : Instruction} (h : B'.insts = pre ++ I :: post) :
    (∃ l, K.front = pre ++ I :: l ∧ post = l ++ new ++ K.back) ∨
      (∃ l₁ l₂, new = l₁ ++ I :: l₂ ∧ pre = K.front ++ l₁) ∨
        ∃ l, K.back = l ++ I :: post ∧ pre = K.front ++ new ++ l := by
  rw [K.new_eq] at h
  rcases place_append h.symm with ⟨l, hl, hpost⟩ | ⟨l, hl, hpre⟩
  · rcases place_append hl.symm with ⟨l', hl', hpost'⟩ | ⟨l', hl', hpre'⟩
    · exact .inl ⟨l', hl', by rw [hpost, hpost']⟩
    · exact .inr (.inl ⟨l', l, hl', hpre'⟩)
  · exact .inr (.inr ⟨l, hl, hpre⟩)

/-- A place of the old block, or one of the instructions put in. -/
theorem origin {F : Function} (hB : B ∈ F.blocks) {pre post : List Instruction} {I : Instruction}
    (h : B'.insts = pre ++ I :: post) :
    KeptAt F B'.id pre I ∨ ∃ l₁ l₂, new = l₁ ++ I :: l₂ ∧ pre = K.front ++ l₁ := by
  rcases K.place h with ⟨l, hl, hpost⟩ | hnew | ⟨l, hl, hpre⟩
  · exact .inl ⟨B, hB, K.id_eq.symm, pre, l ++ K.back, by rw [K.old_eq, hl]; simp, fun J hJ => hJ⟩
  · exact .inr hnew
  · refine .inl ⟨B, hB, K.id_eq.symm, K.front ++ l, post, by rw [K.old_eq, hl]; simp, fun J hJ => ?_⟩
    rw [hpre]
    rcases List.mem_append.mp hJ with hJ | hJ
    · exact List.mem_append_left _ (List.mem_append_left _ hJ)
    · exact List.mem_append_right _ hJ

/-- **A block keeps its order** when plain instructions are put in after its phi nodes and pads and before
its `musttail` call. -/
theorem wellFormed (hB : B.WellFormed)
    (hnew : ∀ I ∈ new, I.isTerminator = false ∧ I.isPhi = false ∧ I.isEHPad = false ∧
      I.isMustTail = false)
    (hback : ∀ I ∈ K.back, I.isPhi = false ∧ I.isEHPad = false)
    (hfront : ∀ I ∈ K.front, I.isMustTail = false) : B'.WellFormed := by
  -- a phi node or a pad stands in front of what was put in, where nothing has changed
  have hbefore : ∀ {pre post : List Instruction} {I : Instruction}, B'.insts = pre ++ I :: post →
      I.isPhi = true ∨ I.isEHPad = true → ∃ post₀, B.insts = pre ++ I :: post₀ := by
    intro pre post I hsplit hkind
    rcases K.place hsplit with ⟨l, hl, -⟩ | ⟨l₁, l₂, hl, -⟩ | ⟨l, hl, -⟩
    · exact ⟨l ++ K.back, by rw [K.old_eq, hl]; simp⟩
    · obtain ⟨-, hphi, hpad, -⟩ := hnew I (by rw [hl]; simp)
      simp [hphi, hpad] at hkind
    · obtain ⟨hphi, hpad⟩ := hback I (by rw [hl]; simp)
      simp [hphi, hpad] at hkind
  refine ⟨?_, fun pre I post hsplit hphi => ?_, fun pre I post hsplit hpad => ?_,
    fun pre I post hsplit hmust => ?_⟩
  · obtain ⟨body, t, hinsts, ht, hbody⟩ := hB.terminator
    have hold := K.old_eq
    obtain ⟨b, u, hbu⟩ : ∃ b u, K.back = b ++ [u] :=
      ⟨_, _, (List.dropLast_append_getLast K.back_ne).symm⟩
    rw [hinsts, hbu, ← List.append_assoc] at hold
    obtain ⟨hbody', hlast⟩ := List.append_inj' hold rfl
    rw [List.cons.injEq] at hlast
    refine ⟨K.front ++ new ++ b, t, by rw [K.new_eq, hbu, hlast.1]; simp, ht, fun I hI => ?_⟩
    rcases List.mem_append.mp hI with hI | hI
    · rcases List.mem_append.mp hI with hI | hI
      · exact hbody I (by rw [hbody']; exact List.mem_append_left _ hI)
      · exact (hnew I hI).1
    · exact hbody I (by rw [hbody']; exact List.mem_append_right _ hI)
  · obtain ⟨post₀, hsplit₀⟩ := hbefore hsplit (.inl hphi)
    exact hB.phisFirst pre I post₀ hsplit₀ hphi
  · obtain ⟨post₀, hsplit₀⟩ := hbefore hsplit (.inr hpad)
    exact hB.padsFirst pre I post₀ hsplit₀ hpad
  · rcases K.place hsplit with ⟨l, hl, -⟩ | ⟨l₁, l₂, hl, -⟩ | ⟨l, hl, -⟩
    · rw [hfront I (by rw [hl]; simp)] at hmust
      cases hmust
    · rw [(hnew I (by rw [hl]; simp)).2.2.2] at hmust
      cases hmust
    · exact hB.mustTail (K.front ++ l) I post (by rw [K.old_eq, hl]; simp) hmust

end Inserted

/-! ### Blocks replaced one by one -/

/-- A block with the identity and the terminator of another one, and at least its instructions. -/
structure BasicBlock.Covers (B B' : BasicBlock) : Prop where
  id_eq : B'.id = B.id
  terminator_eq : B'.getTerminator = B.getTerminator
  insts : ∀ I ∈ B.insts, I ∈ B'.insts

theorem Inserted.covers {B B' : BasicBlock} {new : List Instruction} (K : Inserted B B' new) :
    B.Covers B' := ⟨K.id_eq, K.getTerminator_eq, fun _ hI => K.mem_insts hI⟩

theorem BasicBlock.Covers.refl (B : BasicBlock) : B.Covers B := ⟨rfl, rfl, fun _ hI => hI⟩

section Replace

variable {Bs Bs' : List BasicBlock} (h : List.Forall₂ BasicBlock.Covers Bs Bs')
include h

theorem map_id_of_covers : Bs'.map BasicBlock.id = Bs.map BasicBlock.id := by
  induction h with
  | nil => rfl
  | cons hB _ ih => rw [List.map_cons, List.map_cons, hB.id_eq, ih]

theorem find?_of_covers (b : ℕ) :
    (Bs.find? (·.id = b) = none ∧ Bs'.find? (·.id = b) = none) ∨
      ∃ B B', Bs.find? (·.id = b) = some B ∧ Bs'.find? (·.id = b) = some B' ∧ B.Covers B' := by
  induction h with
  | nil => exact .inl ⟨rfl, rfl⟩
  | @cons B B' Bs Bs' hB _ ih =>
    by_cases hb : B.id = b
    · have hb' : B'.id = b := hB.id_eq.trans hb
      exact .inr ⟨B, B', by simp [hb], by simp [hb'], hB⟩
    · have hb' : B'.id ≠ b := fun h => hb (hB.id_eq ▸ h)
      rw [List.find?_cons_of_neg (by simpa using hb), List.find?_cons_of_neg (by simpa using hb')]
      exact ih

/-- A function grows when each of its blocks does. -/
theorem grows_of_covers {F G : Function} (hF : F.blocks = Bs) (hG : G.blocks = Bs') : F.Grows G where
  head _ := by
    have hids := map_id_of_covers h
    rw [hF, hG, ← List.head?_map, ← List.head?_map, hids]
  successors b := by
    rw [Function.successors, Function.successors, Function.block?, Function.block?, hF, hG]
    rcases find?_of_covers h b with ⟨h₁, h₂⟩ | ⟨B, B', h₁, h₂, hB⟩
    · rw [h₁, h₂]
    · rw [h₁, h₂]
      show B'.successors = B.successors
      rw [BasicBlock.successors, BasicBlock.successors, hB.terminator_eq]
  blocks b B hB := by
    rw [Function.block?, hF] at hB
    rw [Function.block?, hG]
    rcases find?_of_covers h b with ⟨h₁, -⟩ | ⟨B₀, B', h₁, h₂, hcov⟩
    · rw [h₁] at hB
      cases hB
    · rw [h₁, Option.some.injEq] at hB
      subst hB
      exact ⟨B', h₂, hcov.insts⟩

end Replace

/-- What stands in the second list has a partner in the first one. -/
theorem exists_of_mem_forall₂ {α β : Type} {R : α → β → Prop} {l : List α} {m : List β}
    (h : List.Forall₂ R l m) {y : β} (hy : y ∈ m) : ∃ x ∈ l, R x y := by
  induction h with
  | nil => cases hy
  | cons hR _ ih =>
    rcases List.mem_cons.mp hy with rfl | hy
    · exact ⟨_, List.mem_cons_self, hR⟩
    · obtain ⟨x, hx, hxy⟩ := ih hy
      exact ⟨x, List.mem_cons_of_mem _ hx, hxy⟩

/-- `B'` is `B` with instructions put in that are fresh in `G` there. -/
def InsertedFresh (M : Module) (G : Function) (B B' : BasicBlock) : Prop :=
  ∃ new, ∃ K : Inserted B B' new,
    ∀ l₁ I l₂, new = l₁ ++ I :: l₂ → Fresh M G (K.front ++ l₁) I

/-- A block left as it is has nothing put in. -/
theorem insertedFresh_refl {M : Module} {G : Function} {B : BasicBlock} (hB : B.insts ≠ []) :
    InsertedFresh M G B B :=
  ⟨[], ⟨[], B.insts, rfl, rfl, rfl, hB⟩, fun l₁ I l₂ h => by simp at h⟩

/-- **Fresh instructions put into well-formed blocks** keep a function well-formed. -/
theorem Function.WellFormed.insert {M : Module} {F G : Function} (h : F.WellFormed M)
    (hheader : F.SameHeader G) (hnextBlock : G.nextBlock = F.nextBlock) {k : ℕ}
    (hnext : G.nextValue = F.nextValue + k)
    (hvalues : (G.insts.map Instruction.id).Perm
      (F.insts.map Instruction.id ++ List.range' F.nextValue k))
    (hblocks : ∀ B ∈ G.blocks, B.WellFormed)
    (hins : List.Forall₂ (InsertedFresh M G) F.blocks G.blocks) : G.WellFormed M := by
  have hcov : List.Forall₂ BasicBlock.Covers F.blocks G.blocks :=
    hins.imp fun _ _ ⟨_, K, _⟩ => K.covers
  have hids := map_id_of_covers hcov
  refine h.grow (grows_of_covers hcov rfl rfl) hheader hblocks (hids ▸ h.blockIds)
    (fun B hB => ?_) hnext hvalues fun B hB pre I post hsplit => ?_
  · obtain ⟨B₀, hB₀, _, K, -⟩ := exists_of_mem_forall₂ hins hB
    rw [hnextBlock, K.id_eq]
    exact h.blockBound B₀ hB₀
  · obtain ⟨B₀, hB₀, new, K, hfresh⟩ := exists_of_mem_forall₂ hins hB
    refine (K.origin hB₀ hsplit).imp_right ?_
    rintro ⟨l₁, l₂, hnew, rfl⟩
    exact hfresh l₁ I l₂ hnew

end SnippetsLlvm.Ir
