import SnippetsLlvm.Ir.Machine

/-!
# A word-sized interpretation of the data

The least interpretation that runs the counting code: every memory object is one 64-bit word, only words are
loaded and stored, and nothing but an address constant carries an address.  It shows that the laws of
`DataSem` can be met, and programs small enough to be run by evaluation run in it.
-/

namespace SnippetsLlvm.Ir

/-- Additions of words, and the exception a landing pad received. -/
def wordEval (I : Instruction) (pad : Option (Val Empty)) (vs : List (Val Empty)) :
    Option (Val Empty) :=
  match I.opcode, vs with
  | .binary .add, [.int 64 x, .int 64 y] => some (.int 64 (x + y))
  | .landingPad _, _ => pad
  | _, _ => none

/-- Loads and stores of a word. -/
def wordAccess (I : Instruction) (c : BitVec 64) (off : ℤ) (vs : List (Val Empty)) :
    Option (BitVec 64 × Val Empty) :=
  match I.opcode, off, vs with
  | .load, 0, _ => if I.type = .i64 then some (c, .int 64 c) else none
  | .store, 0, [.int 64 y, _] => some (y, .void)
  | _, _, _ => none

theorem wordEval_eq_some {I : Instruction} {pad : Option (Val Empty)} {vs : List (Val Empty)}
    {v : Val Empty} (h : wordEval I pad vs = some v) :
    pad = some v ∨ ∃ x : BitVec 64, v = .int 64 x := by
  unfold wordEval at h
  split at h
  · exact .inr ⟨_, (Option.some.inj h).symm⟩
  · exact .inl h
  · cases h

theorem wordAccess_eq_some {I : Instruction} {c c' : BitVec 64} {off : ℤ} {vs : List (Val Empty)}
    {v : Val Empty} (h : wordAccess I c off vs = some (c', v)) :
    v = .void ∨ ∃ x : BitVec 64, v = .int 64 x := by
  unfold wordAccess at h
  split at h
  · split at h
    · cases h
      exact .inr ⟨c, rfl⟩
    · cases h
  · cases h
    exact .inl rfl
  · cases h

/-- One 64-bit word for each object. -/
def wordOps : DataOps where
  Data := Empty
  Content := BitVec 64
  constant
    | .expr _ _ (.global g _ _ :: _) => some (.ptr (.global g) 0)
    | .pointerNull _ => some (.int 64 0)
    | _ => none
  eval := wordEval
  alloc _ _ := some 0
  access := wordAccess
  dispatch _ _ _ := none
  asmTarget _ _ := none
  init _
    | .int 64 n => BitVec.ofInt 64 n
    | _ => 0

/-- **The laws hold of words.** -/
def wordSem : DataSem where
  toDataOps := wordOps
  eval_add I pad x y hop _ := by
    simp only [wordOps, wordEval, hop]
    rfl
  init_i64 n I vs hop hty := by
    simp only [wordOps, wordAccess, hop, hty, if_true]
    rfl
  store_i64 I c x y p _ hop := by
    refine ⟨y, ?_, fun J vs hop' hty => ?_⟩
    · simp only [wordOps, wordAccess, hop]
      rfl
    · simp only [wordOps, wordAccess, hop', hty, if_true]
      rfl
  constant_first _ _ _ _ := rfl
  dataMentions d _ := d.elim
  contentMentions _ _ := False
  constant_mentions c v g hv hg := by
    simp only [wordOps] at hv
    split at hv
    · cases hv
      simp only [Val.Mentions] at hg
      simp [Constant.mentions, Constant.anyMentions, hg]
    · cases hv
      cases hg
    · cases hv
  eval_mentions I pad vs v g hv hg := by
    rcases wordEval_eq_some hv with rfl | ⟨x, rfl⟩
    · exact ⟨v, List.mem_cons_self, hg⟩
    · cases hg
  alloc_mentions _ _ _ _ _ h := h.elim
  access_mentions I c off vs c' v g hv hg := by
    rcases wordAccess_eq_some hv with rfl | ⟨x, rfl⟩ <;> rcases hg with hg | hg <;> cases hg
  dispatch_goto_mentions _ _ _ _ _ _ h _ := by cases h
  dispatch_raise_mentions _ _ _ _ _ h _ := by cases h
  init_mentions _ _ _ h := h.elim

end SnippetsLlvm.Ir
