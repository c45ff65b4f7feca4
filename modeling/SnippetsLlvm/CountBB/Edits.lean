import SnippetsLlvm.CountBB.Result
import SnippetsLlvm.Ir.Growth
import SnippetsLlvm.Ir.Edits

/-!
# The three rewritings of `count-bb`, one function at a time

`count-bb` rewrites a function in three ways: the registration goes to the front of `main`, the reporting
block to the end of the handler, and the counting code before every terminator.

* `registerAtFront_wellFormed`, `appendReport_wellFormed` — the first two keep every function well-formed;
* `countFunction_wellFormed_iff` — **the third does exactly when no `musttail` call and no `catchswitch`
  stands in the function**: the counting code comes between the one and its `ret`, and before the other.
-/

namespace SnippetsLlvm.CountBB

open SnippetsLlvm.Ir

/-! ### What the inserted code refers to -/

/-- The module has a function of the given type under this identity, and it is no intrinsic. -/
structure Callable (M : Module) (g : ℕ) (ty : FunctionType) : Prop where
  ref : ∃ V ∈ M.globalValues, V.ref = .global g .function ty.ptrTy
  plain : ∀ F ∈ M.functions, F.id = g → F.intrinsic = none

/-- A direct reference to a global that is there. -/
theorem globalsIn_global {M : Module} {g : ℕ} {k : GlobalKind} {ty : Ty}
    (h : ∃ V ∈ M.globalValues, V.ref = .global g k ty) :
    (Value.const (.global g k ty)).GlobalsIn M := by
  refine ⟨fun g' k' ty' heq => ?_, fun g' hg' => ?_⟩
  · cases heq
    exact h
  · obtain ⟨V, hV, href⟩ := h
    refine ⟨V, hV, ?_⟩
    rw [GlobalValue.ref, Constant.global.injEq] at href
    rw [href.1]
    simpa [Value.mentions, Constant.mentions] using hg'

theorem globalsIn_int {M : Module} (w : ℕ) (n : ℤ) : (Value.const (.int w n)).GlobalsIn M :=
  ⟨fun _ _ _ heq => (nomatch heq), fun _ hg => (nomatch hg)⟩

theorem globalsIn_inst {M : Module} (d : ℕ) (op : Opcode) (ty : Ty) :
    (Value.inst d op ty).GlobalsIn M :=
  ⟨fun _ _ _ heq => (nomatch heq), fun _ hg => (nomatch hg)⟩

/-! ### The registration -/

theorem fresh_registerCall {M : Module} {G : Function} {n a h : ℕ} (ha : Callable M a atexitTy)
    (hh : Callable M h atexitCallTy) : Fresh M G [] (registerCall n a h) where
  notPhi := rfl
  noPersonality := rfl
  notInvoke _ hop := nomatch hop
  notMustTail := rfl
  localRefs v hv := by
    rcases List.mem_cons.mp hv with rfl | hv
    · trivial
    · rw [List.mem_singleton.mp hv]
      trivial
  globalRefs v hv := by
    rcases List.mem_cons.mp hv with rfl | hv
    · exact globalsIn_global hh.ref
    · rw [List.mem_singleton.mp hv]
      exact globalsIn_global ha.ref
  defined d op ty hd := by simp [registerCall] at hd
  typed := trivial
  calls ft hft := by
    obtain rfl : atexitTy = ft := Option.some.inj hft
    exact ⟨rfl, rfl, rfl, fun _ => rfl⟩
  rets hret := nomatch hret
  notIntrinsic g ty hcallee F hF hid := by
    have heq : Value.const (.global a .function atexitTy.ptrTy) = .const (.global g .function ty) :=
      Option.some.inj hcallee
    cases heq
    exact ha.plain F hF hid

/-- The front block with the registration. -/
def insertedFront {B : BasicBlock} (hB : B.insts ≠ []) (I : Instruction) :
    Inserted B (B.pushFront I) [I] where
  front := []
  back := B.insts
  id_eq := rfl
  old_eq := rfl
  new_eq := rfl
  back_ne := hB

/-- **The registration keeps a function well-formed.** -/
theorem registerAtFront_wellFormed {M : Module} {F : Function} {a h : ℕ} (hF : F.WellFormed M)
    (ha : Callable M a atexitTy) (hh : Callable M h atexitCallTy) :
    (registerAtFront a h F).WellFormed M := by
  cases hBs : F.blocks with
  | nil =>
    rw [registerAtFront, hBs]
    exact hF
  | cons E Bs =>
    have hwf := hF.blocks E (by simp [hBs])
    let K := insertedFront hwf.insts_ne_nil (registerCall F.nextValue a h)
    have hG : registerAtFront a h F =
        { F with blocks := E.pushFront (registerCall F.nextValue a h) :: Bs,
                 nextValue := F.nextValue + 1 } := by
      rw [registerAtFront, hBs]
    rw [hG]
    refine hF.insert ⟨rfl, rfl, rfl, rfl, rfl⟩ rfl (k := 1) rfl ?_ (fun B hB => ?_) ?_
    · simp only [Function.insts, hBs, List.flatMap_cons, List.map_append]
      show (([F.nextValue] ++ _) ++ _ : List ℕ).Perm _
      rw [List.append_assoc]
      exact List.perm_append_comm
    · rcases List.mem_cons.mp hB with rfl | hB
      · refine K.wellFormed hwf (fun I hI => ?_) (hF.entryPlain E (by rw [hBs]; rfl))
          (by simp [K, insertedFront])
        rw [List.mem_singleton.mp hI]
        exact ⟨rfl, rfl, rfl, rfl⟩
      · exact hF.blocks B (by simp [hBs, hB])
    · rw [hBs]
      refine .cons ⟨_, K, fun l₁ I l₂ hnew => ?_⟩ (List.forall₂_same.mpr fun B hB => ?_)
      · obtain ⟨rfl, rfl⟩ : l₁ = [] ∧ I = registerCall F.nextValue a h := by
          cases l₁ with
          | nil => exact ⟨rfl, (List.cons.inj hnew).1.symm⟩
          | cons J l₁ => simp at hnew
        exact fresh_registerCall ha hh
      · exact insertedFresh_refl (hF.blocks B (by simp [hBs, hB])).insts_ne_nil

/-- The places among three instructions. -/
theorem place_three {α : Type} {a b c x : α} {pre post : List α} (h : [a, b, c] = pre ++ x :: post) :
    (pre = [] ∧ x = a) ∨ (pre = [a] ∧ x = b) ∨ (pre = [a, b] ∧ x = c) := by
  match pre, h with
  | [], h => exact .inl ⟨rfl, (List.cons.inj h).1.symm⟩
  | [_], h => simp at h; simp [h]
  | [_, _], h => simp at h; simp [h]
  | _ :: _ :: _ :: _, h => simp at h

/-! ### The load of the counter -/

/-- A direct reference to a variable that is there. -/
theorem globalsIn_variable {M : Module} {c : GlobalVariable}
    (hc : ∃ V ∈ M.globalValues, V.ref = c.ref) : (Value.const c.ref).GlobalsIn M :=
  globalsIn_global hc

/-- The handler and the counting code load the counter in the same way. -/
theorem fresh_load {M : Module} {G : Function} {pre : List Instruction} {n : ℕ} {c : GlobalVariable}
    (hc : ∃ V ∈ M.globalValues, V.ref = c.ref) : Fresh M G pre (oldCounter n c) where
  notPhi := rfl
  noPersonality := rfl
  notInvoke _ hop := nomatch hop
  notMustTail := rfl
  localRefs v hv := by
    rw [List.mem_singleton.mp hv]
    trivial
  globalRefs v hv := by
    rw [List.mem_singleton.mp hv]
    exact globalsIn_variable hc
  defined _ _ _ hd := nomatch List.mem_singleton.mp hd
  typed := ⟨_, 0, rfl, rfl⟩
  calls _ hft := nomatch hft
  rets hret := nomatch hret
  notIntrinsic _ _ hcallee := nomatch hcallee

/-! ### The reporting block -/

section Report

variable {M : Module} {F : Function} {c : GlobalVariable} {p : ℕ} {fmt : Constant}

theorem fresh_handlerCall {G : Function} {pre : List Instruction} {n : ℕ}
    (hp : Callable M p printfTy) (hfmt : (Value.const fmt).GlobalsIn M) (hty : fmt.getType = .i8Ptr)
    (hmem : handlerLoad n c ∈ G.insts) (hpre : handlerLoad n c ∈ pre) :
    Fresh M G pre (handlerCall n c p fmt) where
  notPhi := rfl
  noPersonality := rfl
  notInvoke _ hop := nomatch hop
  notMustTail := rfl
  localRefs v hv := by
    simp only [handlerCall, List.mem_cons, List.not_mem_nil, or_false] at hv
    rcases hv with rfl | rfl | rfl
    · trivial
    · exact ⟨_, hmem, rfl, rfl, rfl⟩
    · trivial
  globalRefs v hv := by
    simp only [handlerCall, List.mem_cons, List.not_mem_nil, or_false] at hv
    rcases hv with rfl | rfl | rfl
    · exact hfmt
    · exact globalsIn_inst _ _ _
    · exact globalsIn_global hp.ref
  defined d op ty hd := by
    simp only [handlerCall, Instruction.ref, List.mem_cons, List.not_mem_nil, or_false, reduceCtorEq,
      false_or] at hd
    cases hd
    exact ⟨_, hpre, rfl⟩
  typed := trivial
  calls ft hft := by
    obtain rfl : printfTy = ft := Option.some.inj hft
    refine ⟨rfl, rfl, ?_, fun h => nomatch h⟩
    show [fmt.getType] = printfTy.params
    rw [hty]
    rfl
  rets hret := nomatch hret
  notIntrinsic g ty hcallee F hF hid := by
    have heq : Value.const (.global p .function printfTy.ptrTy) = .const (.global g .function ty) :=
      Option.some.inj hcallee
    cases heq
    exact hp.plain F hF hid

theorem fresh_handlerRet {G : Function} {pre : List Instruction} {n : ℕ} (hret : G.type.ret = .void) :
    Fresh M G pre (handlerRet n) where
  notPhi := rfl
  noPersonality := rfl
  notInvoke _ hop := nomatch hop
  notMustTail := rfl
  localRefs _ hv := nomatch hv
  globalRefs _ hv := nomatch hv
  defined _ _ _ hd := nomatch hd
  typed := trivial
  calls _ hft := nomatch hft
  rets _ := ⟨rfl, hret⟩
  notIntrinsic _ _ hcallee := nomatch hcallee

theorem reportBlock_wellFormed (b : ℕ) (name : String) (n : ℕ) :
    (reportBlock b name n c p fmt).WellFormed := by
  have hplain : ∀ I ∈ (reportBlock b name n c p fmt).insts,
      I.isPhi = false ∧ I.isEHPad = false ∧ I.isMustTail = false := by
    intro I hI
    simp only [reportBlock, List.mem_cons, List.not_mem_nil, or_false] at hI
    rcases hI with rfl | rfl | rfl <;> exact ⟨rfl, rfl, rfl⟩
  refine ⟨⟨[handlerLoad n c, handlerCall n c p fmt], handlerRet n, rfl, rfl, fun I hI => ?_⟩,
    fun pre I post hsplit hphi => ?_, fun pre I post hsplit hpad => ?_,
    fun pre I post hsplit hmust => ?_⟩
  · simp only [List.mem_cons, List.not_mem_nil, or_false] at hI
    rcases hI with rfl | rfl <;> rfl
  · rw [(hplain I (by rw [hsplit]; simp)).1] at hphi
    cases hphi
  · rw [(hplain I (by rw [hsplit]; simp)).2.1] at hpad
    cases hpad
  · rw [(hplain I (by rw [hsplit]; simp)).2.2] at hmust
    cases hmust

theorem block?_appendReport (b : ℕ) : (appendReport c p fmt F).block? b =
    (F.block? b).or (if F.nextBlock = b then
      some (reportBlock F.nextBlock (F.uniqueBlockName "entry") F.nextValue c p fmt) else none) := by
  rw [appendReport, Function.block?, Function.block?, List.find?_append]
  congr 1
  by_cases hb : F.nextBlock = b
  · rw [if_pos hb]
    exact List.find?_cons_of_pos (by rw [decide_eq_true_eq]; exact hb)
  · rw [if_neg hb]
    exact List.find?_cons_of_neg (by rw [decide_eq_true_eq]; exact hb)

theorem grows_appendReport : F.Grows (appendReport c p fmt F) where
  head hne := by
    show (F.blocks ++ _).head?.map _ = _
    rw [List.head?_append_of_ne_nil _ hne]
  successors b := by
    rw [Function.successors, Function.successors, block?_appendReport]
    cases F.block? b with
    | some B => rfl
    | none =>
      by_cases hb : F.nextBlock = b
      · rw [if_pos hb]
        rfl
      · rw [if_neg hb]
        rfl
  blocks b B hB := ⟨B, by rw [block?_appendReport, hB]; rfl, fun _ hI => hI⟩

/-- **The reporting block keeps a function without result well-formed.** -/
theorem appendReport_wellFormed (hF : F.WellFormed M) (hret : F.type.ret = .void)
    (hc : ∃ V ∈ M.globalValues, V.ref = c.ref) (hp : Callable M p printfTy)
    (hfmt : (Value.const fmt).GlobalsIn M) (hty : fmt.getType = .i8Ptr) :
    (appendReport c p fmt F).WellFormed M := by
  have hload : handlerLoad F.nextValue c ∈ (appendReport c p fmt F).insts := by
    simp [appendReport, Function.insts, reportBlock]
  refine hF.grow grows_appendReport ⟨rfl, rfl, rfl, rfl, rfl⟩ (fun B hB => ?_) ?_ (fun B hB => ?_) (k := 3) rfl ?_
    fun B hB pre I post hsplit => ?_
  · rcases List.mem_append.mp hB with hB | hB
    · exact hF.blocks B hB
    · rw [List.mem_singleton.mp hB]
      exact reportBlock_wellFormed _ _ _
  · show ((F.blocks ++ [_]).map BasicBlock.id).Nodup
    rw [List.map_append]
    refine List.nodup_append.mpr ⟨hF.blockIds, by simp, fun d hd e he => ?_⟩
    obtain ⟨B, hB, rfl⟩ := List.mem_map.mp hd
    have hlt := hF.blockBound B hB
    have he' : e = F.nextBlock := List.mem_singleton.mp he
    omega
  · show B.id < F.nextBlock + 1
    rcases List.mem_append.mp hB with hB | hB
    · exact Nat.lt_succ_of_lt (hF.blockBound B hB)
    · rw [List.mem_singleton.mp hB]
      exact Nat.lt_succ_self _
  · show ((F.blocks ++ [_]).flatMap _).map _ |>.Perm _
    rw [List.flatMap_append, List.map_append]
    exact List.Perm.refl _
  · rcases List.mem_append.mp hB with hB | hB
    · exact .inl ⟨B, hB, rfl, pre, post, hsplit, fun J hJ => hJ⟩
    · rw [List.mem_singleton.mp hB] at hsplit
      refine .inr ?_
      rcases place_three hsplit with ⟨rfl, rfl⟩ | ⟨rfl, rfl⟩ | ⟨rfl, rfl⟩
      · exact fresh_load hc
      · exact fresh_handlerCall hp hfmt hty hload List.mem_cons_self
      · exact fresh_handlerRet hret

end Report

/-! ### The counting code -/

section Count

variable {M : Module} {F : Function} {c : GlobalVariable}

theorem fresh_newCounter {G : Function} {pre : List Instruction} {n : ℕ} (hty : c.valueType = .i64)
    (hmem : oldCounter n c ∈ G.insts) (hpre : oldCounter n c ∈ pre) :
    Fresh M G pre (newCounter n c) where
  notPhi := rfl
  noPersonality := rfl
  notInvoke _ hop := nomatch hop
  notMustTail := rfl
  localRefs v hv := by
    rcases List.mem_cons.mp hv with rfl | hv
    · exact ⟨_, hmem, rfl, rfl, rfl⟩
    · rw [List.mem_singleton.mp hv]
      trivial
  globalRefs v hv := by
    rcases List.mem_cons.mp hv with rfl | hv
    · exact globalsIn_inst _ _ _
    · rw [List.mem_singleton.mp hv]
      exact globalsIn_int _ _
  defined d op ty hd := by
    simp only [newCounter, Instruction.ref, List.mem_cons, List.not_mem_nil, or_false, reduceCtorEq] at hd
    cases hd
    exact ⟨_, hpre, rfl⟩
  typed := ⟨_, _, rfl, rfl, hty.symm⟩
  calls _ hft := nomatch hft
  rets hret := nomatch hret
  notIntrinsic _ _ hcallee := nomatch hcallee

theorem fresh_storeCounter {G : Function} {pre : List Instruction} {n : ℕ}
    (hc : ∃ V ∈ M.globalValues, V.ref = c.ref) (hmem : newCounter n c ∈ G.insts)
    (hpre : newCounter n c ∈ pre) : Fresh M G pre (storeCounter n c) where
  notPhi := rfl
  noPersonality := rfl
  notInvoke _ hop := nomatch hop
  notMustTail := rfl
  localRefs v hv := by
    rcases List.mem_cons.mp hv with rfl | hv
    · exact ⟨_, hmem, rfl, rfl, rfl⟩
    · rw [List.mem_singleton.mp hv]
      trivial
  globalRefs v hv := by
    rcases List.mem_cons.mp hv with rfl | hv
    · exact globalsIn_inst _ _ _
    · rw [List.mem_singleton.mp hv]
      exact globalsIn_variable hc
  defined d op ty hd := by
    simp only [storeCounter, Instruction.ref, List.mem_cons, List.not_mem_nil, or_false] at hd
    rcases hd with hd | hd
    · cases hd
      exact ⟨_, hpre, rfl⟩
    · cases hd
  typed := ⟨_, _, 0, rfl, rfl, rfl⟩
  calls _ hft := nomatch hft
  rets hret := nomatch hret
  notIntrinsic _ _ hcallee := nomatch hcallee

/-- A block with the counting code before its last instruction. -/
def insertedBeforeLast {B : BasicBlock} (hB : B.insts ≠ []) (new : List Instruction) :
    Inserted B (B.insertBeforeLast new) new where
  front := B.insts.dropLast
  back := [B.insts.getLast hB]
  id_eq := rfl
  old_eq := (List.dropLast_append_getLast hB).symm
  new_eq := by
    rw [BasicBlock.insertBeforeLast, List.getLast?_eq_some_getLast hB]
    rfl
  back_ne := List.cons_ne_nil _ _

/-- What holds of each block with its counting code holds of all of them in order. -/
theorem forall₂_countBlocks {R : BasicBlock → BasicBlock → Prop} (n : ℕ) {Bs : List BasicBlock}
    (h : ∀ B ∈ Bs, ∀ m, B.insertBeforeLast (countInsts m c) ∈ countBlocks c n Bs →
      R B (B.insertBeforeLast (countInsts m c))) :
    List.Forall₂ R Bs (countBlocks c n Bs) := by
  induction Bs generalizing n with
  | nil => exact .nil
  | cons B Bs ih =>
    refine .cons (h B (by simp) n (by simp [countBlocks])) (ih (n + 3) fun A hA m hmem => ?_)
    exact h A (by simp [hA]) m (by simp [countBlocks, hmem])

theorem exists_mem_countBlocks {Bs : List BasicBlock} {B : BasicBlock} (hB : B ∈ Bs) (n : ℕ) :
    ∃ m, B.insertBeforeLast (countInsts m c) ∈ countBlocks c n Bs := by
  induction Bs generalizing n with
  | nil => cases hB
  | cons A Bs ih =>
    rcases List.mem_cons.mp hB with rfl | hB
    · exact ⟨n, by simp [countBlocks]⟩
    · obtain ⟨m, hm⟩ := ih hB (n + 3)
      exact ⟨m, by simp [countBlocks, hm]⟩

theorem mem_countBlocks {Bs : List BasicBlock} {n : ℕ} {B' : BasicBlock}
    (h : B' ∈ countBlocks c n Bs) :
    ∃ B ∈ Bs, ∃ m, B' = B.insertBeforeLast (countInsts m c) :=
  exists_of_mem_forall₂ (R := fun B B' => ∃ m, B' = B.insertBeforeLast (countInsts m c))
    (forall₂_countBlocks n fun _ _ m _ => ⟨m, rfl⟩) h

/-- The identities after counting: three new ones for each block, drawn in order. -/
theorem countBlocks_ids {Bs : List BasicBlock} (hBs : ∀ B ∈ Bs, B.insts ≠ []) (n : ℕ) :
    (((countBlocks c n Bs).flatMap BasicBlock.insts).map Instruction.id).Perm
      ((Bs.flatMap BasicBlock.insts).map Instruction.id ++ List.range' n (3 * Bs.length)) := by
  induction Bs generalizing n with
  | nil => exact List.Perm.refl _
  | cons B Bs ih =>
    have hB := ((insertedBeforeLast (hBs B (by simp)) (countInsts n c)).perm).map Instruction.id
    have hrest := ih (fun A hA => hBs A (by simp [hA])) (n + 3)
    have hrange : List.range' n (3 * (B :: Bs).length) =
        List.range' n 3 ++ List.range' (n + 3) (3 * Bs.length) := by
      rw [List.range'_append_1, List.length_cons]
      congr 1
      omega
    rw [countBlocks, List.flatMap_cons, List.map_append, List.flatMap_cons, List.map_append, hrange]
    rw [List.map_append] at hB
    refine (hB.append hrest).trans ?_
    rw [List.append_assoc, List.append_assoc]
    refine List.Perm.append_left _ ?_
    rw [← List.append_assoc, ← List.append_assoc]
    exact List.perm_append_comm.append_right _

/-- The instructions of the counting code are plain ones. -/
theorem countInsts_plain {n : ℕ} {I : Instruction} (hI : I ∈ countInsts n c) :
    I.isTerminator = false ∧ I.isPhi = false ∧ I.isEHPad = false ∧ I.isMustTail = false := by
  simp only [countInsts, List.mem_cons, List.not_mem_nil, or_false] at hI
  rcases hI with rfl | rfl | rfl <;> exact ⟨rfl, rfl, rfl, rfl⟩

theorem notPhi_of_isTerminator {I : Instruction} (h : I.isTerminator = true) : I.isPhi = false := by
  rcases I with ⟨_, op, _, _, _⟩
  cases op <;> first | rfl | cases h

theorem notMustTail_of_isTerminator {I : Instruction} (h : I.isTerminator = true) :
    I.isMustTail = false := by
  rcases I with ⟨_, op, _, _, _⟩
  cases op <;> first | rfl | cases h

/-- The only terminator that is a pad. -/
theorem isEHPad_of_isTerminator {I : Instruction} (h : I.isTerminator = true) :
    I.isEHPad = true ↔ I.opcode = .catchSwitch := by
  rcases I with ⟨_, op, _, _, _⟩
  cases op <;> simp_all [Instruction.isTerminator, Opcode.isTerminator, Instruction.isEHPad,
    Opcode.isEHPad]

/-- The last instruction of a block is a terminator and the others are not. -/
theorem dropLast_getLast {B : BasicBlock} (hB : B.WellFormed) (hne : B.insts ≠ []) :
    (B.insts.getLast hne).isTerminator = true ∧ ∀ I ∈ B.insts.dropLast, I.isTerminator = false := by
  obtain ⟨body, t, hinsts, ht, hbody⟩ := hB.terminator
  simp only [hinsts, List.getLast_append_singleton, List.dropLast_concat]
  exact ⟨ht, hbody⟩

/-- **The counting code keeps a block in order** exactly when there is no `musttail` call and no `catchswitch`
in it. -/
theorem insertBeforeLast_wellFormed_iff {B : BasicBlock} (hB : B.WellFormed) (n : ℕ) :
    (B.insertBeforeLast (countInsts n c)).WellFormed ↔
      ∀ I ∈ B.insts, I.isMustTail = false ∧ I.opcode ≠ .catchSwitch := by
  have hne := hB.insts_ne_nil
  obtain ⟨hlast, hbody⟩ := dropLast_getLast hB hne
  let K := insertedBeforeLast hne (countInsts n c)
  constructor
  · intro hwf I hI
    rw [K.old_eq] at hI
    rcases List.mem_append.mp hI with hI | hI
    · refine ⟨?_, fun hop => ?_⟩
      · by_contra hmust
        obtain ⟨pre, post, hfront⟩ := List.append_of_mem hI
        have hsplit : (B.insertBeforeLast (countInsts n c)).insts =
            pre ++ I :: (post ++ countInsts n c ++ K.back) := by
          rw [K.new_eq, hfront]
          simp
        have hfollow := hwf.mustTail pre I _ hsplit (by simpa using hmust)
        have hlen : 4 ≤ (post ++ countInsts n c ++ K.back).length := by
          have h₁ : (countInsts n c).length = 3 := rfl
          have h₂ : K.back.length = 1 := rfl
          rw [List.length_append, List.length_append]
          omega
        rcases hfollow with ⟨r, hr, -⟩ | ⟨b, r, hr, -⟩
        · rw [hr] at hlen
          simp at hlen
        · rw [hr] at hlen
          simp at hlen
      · have hno := hbody I hI
        rw [Instruction.isTerminator, hop] at hno
        cases hno
    · rw [List.mem_singleton.mp hI]
      refine ⟨notMustTail_of_isTerminator hlast, fun hop => ?_⟩
      have hpad := (isEHPad_of_isTerminator hlast).mpr hop
      have hphi := hwf.padsFirst (K.front ++ countInsts n c) _ [] K.new_eq hpad (oldCounter n c)
        (by simp [countInsts])
      cases hphi
  · intro h
    refine K.wellFormed hB (fun I hI => countInsts_plain hI) (fun I hI => ?_) fun I hI => ?_
    · rw [List.mem_singleton.mp hI]
      refine ⟨notPhi_of_isTerminator hlast, ?_⟩
      by_contra hpad
      have hop := (isEHPad_of_isTerminator hlast).mp (by simpa using hpad)
      exact (h _ (List.getLast_mem hne)).2 hop
    · exact (h I (List.dropLast_subset _ hI)).1

/-- **The counting code keeps a function well-formed** exactly when there is no `musttail` call and no
`catchswitch` in it. -/
theorem countFunction_wellFormed_iff (hF : F.WellFormed M) (hc : ∃ V ∈ M.globalValues, V.ref = c.ref)
    (hty : c.valueType = .i64) :
    (countFunction c F).WellFormed M ↔
      ∀ I ∈ F.insts, I.isMustTail = false ∧ I.opcode ≠ .catchSwitch := by
  constructor
  · intro hwf I hI
    obtain ⟨B, hB, hI⟩ := List.mem_flatMap.mp hI
    obtain ⟨m, hmem⟩ := exists_mem_countBlocks hB F.nextValue
    exact (insertBeforeLast_wellFormed_iff (hF.blocks B hB) m).mp (hwf.blocks _ hmem) I hI
  · intro h
    refine hF.insert ⟨rfl, rfl, rfl, rfl, rfl⟩ rfl (k := 3 * F.blocks.length) rfl
      (countBlocks_ids (fun B hB => (hF.blocks B hB).insts_ne_nil) _) (fun B' hB' => ?_) ?_
    · obtain ⟨B, hB, m, rfl⟩ := mem_countBlocks hB'
      exact (insertBeforeLast_wellFormed_iff (hF.blocks B hB) m).mpr fun I hI =>
        h I (List.mem_flatMap.mpr ⟨B, hB, hI⟩)
    · refine forall₂_countBlocks _ fun B hB m hmem => ?_
      have hne := (hF.blocks B hB).insts_ne_nil
      have hin : ∀ I ∈ countInsts m c, I ∈ (countFunction c F).insts := fun I hI =>
        List.mem_flatMap.mpr ⟨_, hmem, by simp [BasicBlock.insertBeforeLast, hI]⟩
      refine ⟨_, insertedBeforeLast hne (countInsts m c), fun l₁ I l₂ hnew => ?_⟩
      rcases place_three hnew with ⟨rfl, rfl⟩ | ⟨rfl, rfl⟩ | ⟨rfl, rfl⟩
      · exact fresh_load hc
      · exact fresh_newCounter hty (hin _ (by simp [countInsts])) (by simp)
      · exact fresh_storeCounter hc (hin _ (by simp [countInsts])) (by simp)

end Count

end SnippetsLlvm.CountBB
