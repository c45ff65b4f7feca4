import SnippetsLlvm.Ir.Module

/-!
# The base below address computations and casts

`elimConstExpr` goes from a constant expression to its first operand as long as it is a `getelementptr` or a
cast; it stops at a value that is no constant expression or at a binary operator, and asserts that it meets
nothing else.

* `chain`, `FirstOff` — the operand chain of a value, and the first value on it that is no address
  computation and no cast;
* `elimConstExpr_spec` — **what the function returns and when its assertion fails, with what follows for
  repeated and for wrapped calls**.
-/

namespace SnippetsLlvm.MyBase

open SnippetsLlvm.Ir

/-! ### The function -/

mutual
/-- `elimConstExpr` on a constant. -/
def elimConst : Constant → Except Failure Constant
  | .expr op ty operands =>
    if op.isBinaryOp then .ok (.expr op ty operands)
    else if op.isGetElementPtr || op.isCast then elimOperand0 operands
    else .error (.assertFailed "Only GEP or CAST supported")
  | c => .ok c
/-- The call on `getOperand(0)`. -/
def elimOperand0 : List Constant → Except Failure Constant
  | [] => .error (.assertFailed "getOperand() out of range!")
  | c :: _ => elimConst c
end

/-- **`elimConstExpr`.** -/
def elimConstExpr : Value → Except Failure Value
  | .const c => (elimConst c).map .const
  | v => .ok v

/-! ### The chain of first operands -/

/-- An address computation or a cast in a constant. -/
def isSpine : Value → Bool
  | .const (.expr op _ _) => op.isGetElementPtr || op.isCast
  | _ => false

/-- A constant expression that is no binary operator. -/
def isNonBinaryExpr : Value → Bool
  | .const (.expr op _ _) => !op.isBinaryOp
  | _ => false

/-- Operand 0 of a constant expression. -/
def operand0 : Value → Option Value
  | .const (.expr _ _ (c :: _)) => some (.const c)
  | _ => none

/-- The chain `V`, operand 0 of `V`, operand 0 of that, and so on. -/
def chain (V : Value) : ℕ → Option Value
  | 0 => some V
  | n + 1 => (chain V n).bind operand0

/-- `W` is the first value on the chain of `V` that is no address computation and no cast. -/
def FirstOff (V W : Value) : Prop :=
  ∃ n, chain V n = some W ∧ isSpine W = false ∧ ∀ m < n, ∃ U, chain V m = some U ∧ isSpine U = true

/-- Every address computation and every cast on the chain has an operand. -/
def HasBase (V : Value) : Prop := ∀ n U, chain V n = some U → isSpine U = true → (operand0 U).isSome = true

theorem chain_succ (V : Value) (n : ℕ) : chain V (n + 1) = (operand0 V).bind fun U => chain U n := by
  induction n with
  | zero =>
    rw [chain, chain, Option.bind_some]
    cases operand0 V <;> rfl
  | succ n ih =>
    rw [chain, ih]
    cases operand0 V <;> rfl

theorem FirstOff.self {V : Value} (h : isSpine V = false) : FirstOff V V :=
  ⟨0, rfl, h, fun _ hm => absurd hm (Nat.not_lt_zero _)⟩

/-- Below an address computation or a cast the search goes on with its operand. -/
theorem firstOff_operand0 {V U W : Value} (hV : isSpine V = true) (hU : operand0 V = some U) :
    FirstOff V W ↔ FirstOff U W := by
  constructor
  · rintro ⟨n, hW, hoff, hbefore⟩
    cases n with
    | zero =>
      cases hW
      rw [hV] at hoff
      cases hoff
    | succ n =>
      rw [chain_succ, hU, Option.bind_some] at hW
      refine ⟨n, hW, hoff, fun m hm => ?_⟩
      obtain ⟨U', hU', hspine⟩ := hbefore (m + 1) (by omega)
      rw [chain_succ, hU, Option.bind_some] at hU'
      exact ⟨U', hU', hspine⟩
  · rintro ⟨n, hW, hoff, hbefore⟩
    refine ⟨n + 1, ?_, hoff, fun m hm => ?_⟩
    · rw [chain_succ, hU, Option.bind_some, hW]
    · cases m with
      | zero => exact ⟨V, rfl, hV⟩
      | succ m =>
        rw [chain_succ, hU, Option.bind_some]
        exact hbefore m (by omega)

theorem HasBase.operand0 {V U : Value} (h : HasBase V) (hU : MyBase.operand0 V = some U) : HasBase U := by
  intro n W hW
  refine h (n + 1) W ?_
  rw [chain_succ, hU, Option.bind_some, hW]

/-! ### What the function computes -/

/-- An address computation or a cast is passed over. -/
theorem elimConstExpr_operand0 {V U : Value} (hV : isSpine V = true) (hU : operand0 V = some U) :
    elimConstExpr V = elimConstExpr U := by
  cases V with
  | const c =>
    cases c with
    | expr op ty operands =>
      cases operands with
      | nil => cases hU
      | cons c cs =>
        cases hU
        have hbinary : op.isBinaryOp = false := by
          cases op <;> first | rfl | cases hV
        have hspine : (op.isGetElementPtr || op.isCast) = true := hV
        rw [elimConstExpr, elimConst, hbinary, hspine]
        rfl
    | _ => cases hV
  | _ => cases hV

/-- Where the chain ends, the function returns the value or its assertion fails. -/
theorem elimConstExpr_stop {V : Value} (hV : isSpine V = false) : elimConstExpr V =
    if isNonBinaryExpr V then .error (.assertFailed "Only GEP or CAST supported") else .ok V := by
  cases V with
  | const c =>
    cases c with
    | expr op ty operands =>
      have hspine : (op.isGetElementPtr || op.isCast) = false := hV
      rw [elimConstExpr, elimConst, hspine, isNonBinaryExpr]
      cases op.isBinaryOp <;> rfl
    | _ => rfl
  | _ => rfl

/-- **The first value off the chain decides.** -/
theorem elimConstExpr_firstOff {V W : Value} (h : FirstOff V W) : elimConstExpr V =
    if isNonBinaryExpr W then .error (.assertFailed "Only GEP or CAST supported") else .ok W := by
  obtain ⟨n, hn⟩ := h
  induction n generalizing V with
  | zero =>
    obtain ⟨hW, hoff, -⟩ := hn
    cases hW
    exact elimConstExpr_stop hoff
  | succ n ih =>
    obtain ⟨hW, hoff, hbefore⟩ := hn
    obtain ⟨V', hV', hspine⟩ := hbefore 0 (Nat.succ_pos n)
    cases hV'
    cases hU : operand0 V with
    | none =>
      rw [chain_succ, hU] at hW
      cases hW
    | some U =>
      rw [elimConstExpr_operand0 hspine hU]
      refine ih ⟨?_, hoff, fun m hm => ?_⟩
      · rw [chain_succ, hU, Option.bind_some] at hW
        exact hW
      · obtain ⟨U', hU', hs⟩ := hbefore (m + 1) (by omega)
        rw [chain_succ, hU, Option.bind_some] at hU'
        exact ⟨U', hU', hs⟩

/-- The chain ends: constant expressions are finite. -/
theorem exists_firstOff {V : Value} (hV : HasBase V) : ∃ W, FirstOff V W := by
  cases V with
  | const c =>
    induction hsize : sizeOf c using Nat.strongRecOn generalizing c with
    | _ n ih =>
      cases hspine : isSpine (.const c) with
      | false => exact ⟨_, .self hspine⟩
      | true =>
        obtain ⟨U, hU⟩ := Option.isSome_iff_exists.mp (hV 0 _ rfl hspine)
        obtain ⟨c', rfl, hlt⟩ : ∃ c', U = .const c' ∧ sizeOf c' < n := by
          cases c with
          | expr op ty operands =>
            cases operands with
            | nil => cases hU
            | cons c' cs =>
              cases hU
              refine ⟨c', rfl, ?_⟩
              rw [← hsize, Constant.expr.sizeOf_spec, List.cons.sizeOf_spec]
              omega
          | _ => cases hspine
        obtain ⟨W, hW⟩ := ih _ hlt c' (hV.operand0 hU) rfl
        exact ⟨W, (firstOff_operand0 hspine hU).mpr hW⟩
  | _ => exact ⟨_, .self rfl⟩

theorem FirstOff.unique {V W W' : Value} (h : FirstOff V W) (h' : FirstOff V W') : W = W' := by
  obtain ⟨n, hW, hoff, hbefore⟩ := h
  obtain ⟨n', hW', hoff', hbefore'⟩ := h'
  rcases Nat.lt_trichotomy n n' with hlt | rfl | hlt
  · obtain ⟨U, hU, hspine⟩ := hbefore' n hlt
    rw [hW, Option.some.injEq] at hU
    rw [hU, hspine] at hoff
    cases hoff
  · exact Option.some.inj (hW.symm.trans hW')
  · obtain ⟨U, hU, hspine⟩ := hbefore n' hlt
    rw [hW', Option.some.injEq] at hU
    rw [hU, hspine] at hoff'
    cases hoff'

/-- **`elimConstExpr` strips exactly the chain of address computations and casts**: there is one first value
off the chain; the assertion fails exactly when it is a constant expression that is no binary operator, and
otherwise it is returned.  So what is returned is no address computation and no cast, a second call changes
nothing, and neither does a further address computation or cast around the value. -/
theorem elimConstExpr_spec (V : Value) (hV : HasBase V) :
    (∃ W, FirstOff V W ∧ (∀ W', FirstOff V W' → W' = W) ∧
      (elimConstExpr V = .error (.assertFailed "Only GEP or CAST supported") ↔ isNonBinaryExpr W = true) ∧
      (isNonBinaryExpr W = false → elimConstExpr V = .ok W)) ∧
    (∀ W, elimConstExpr V = .ok W → isSpine W = false ∧ elimConstExpr W = .ok W) ∧
    ∀ c, V = .const c → ∀ op ty rest, op.isGetElementPtr = true ∨ op.isCast = true →
      elimConstExpr (.const (.expr op ty (c :: rest))) = elimConstExpr V := by
  obtain ⟨W, hW⟩ := exists_firstOff hV
  have hrun := elimConstExpr_firstOff hW
  have hoff : isSpine W = false := by
    obtain ⟨n, -, hoff, -⟩ := hW
    exact hoff
  refine ⟨⟨W, hW, fun W' hW' => hW'.unique hW, ?_, fun hW => ?_⟩, fun W' hW' => ?_, ?_⟩
  · rw [hrun]
    cases isNonBinaryExpr W <;> simp
  · rw [hrun, hW]
    rfl
  · have hstop : isNonBinaryExpr W = false := by
      by_contra hbad
      rw [hrun, if_pos (by simpa using hbad)] at hW'
      cases hW'
    rw [hrun, hstop] at hW'
    cases hW'
    refine ⟨hoff, ?_⟩
    rw [elimConstExpr_stop hoff, hstop]
    rfl
  · rintro c rfl op ty rest hop
    refine elimConstExpr_operand0 ?_ rfl
    rw [isSpine, Bool.or_eq_true]
    exact hop

/-- The address of the second element of a global array, as an integer. -/
def secondAddress : Value :=
  .const (.expr (.cast .ptrToInt) .i64 [.expr (.getElementPtr .i32) (.pointer .i32 0)
    [.global 0 .variable (.pointer .i32 0), .int 64 1]])

theorem elimConstExpr_secondAddress : elimConstExpr secondAddress =
    .ok (.const (.global 0 .variable (.pointer .i32 0))) ∧ HasBase secondAddress ∧
    ∃ W, FirstOff secondAddress W ∧ (isNonBinaryExpr W = false → elimConstExpr secondAddress = .ok W) := by
  have hbase : HasBase secondAddress := by
    intro n U hU hspine
    rcases n with _ | _ | n
    · cases hU
      rfl
    · cases hU
      rfl
    · have hoperand : operand0 secondAddress = some (.const (.expr (.getElementPtr .i32)
          (.pointer .i32 0) [.global 0 .variable (.pointer .i32 0), .int 64 1])) := rfl
      rw [chain_succ, hoperand, Option.bind_some, chain_succ] at hU
      cases n with
      | zero =>
        cases hU
        cases hspine
      | succ n =>
        have hglobal : chain (.const (.global 0 .variable (.pointer .i32 0))) (n + 1) = some U := hU
        rw [chain_succ] at hglobal
        cases hglobal
  obtain ⟨W, hW, -, -, hret⟩ := (elimConstExpr_spec secondAddress hbase).1
  exact ⟨rfl, hbase, W, hW, hret⟩

end SnippetsLlvm.MyBase
