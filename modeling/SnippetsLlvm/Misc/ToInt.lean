import Mathlib.Data.List.Basic
import Mathlib.Data.Int.Notation
import Mathlib.Data.Nat.Notation
import Mathlib.Order.Lattice
import Mathlib.Algebra.Order.Group.Int

/-!
# Reading an integer from a string

`to_int` reads an `int` with the extraction operator of an input stream and, when the whole string has to
match, asks whether the stream is at its end.

* `scan`, `extractInt` — the extraction: white space, a sign, the longest run of digits, and the flags;
* `toInt` — the function;
* `Denotes` — the grammar, with the integer a text denotes;
* `toInt_spec` — **what the function accepts and returns in both modes**.
-/

namespace SnippetsLlvm.Misc

/-! ### The extraction operator -/

/-- `std::isspace` in the classic locale. -/
def isSpace (c : Char) : Bool :=
  c = ' ' || c = '\t' || c = '\n' || c = Char.ofNat 11 || c = Char.ofNat 12 || c = '\r'

/-- What the extraction of an integer consumes after the white space, and what it leaves. -/
structure Scan where
  negative : Bool
  digits : List Char
  rest : List Char
deriving DecidableEq, Repr

/-- The longest run of digits. -/
def scanDigits (negative : Bool) (s : List Char) : Scan :=
  ⟨negative, s.takeWhile Char.isDigit, s.dropWhile Char.isDigit⟩

/-- White space, an optional sign, and the longest run of digits. -/
def scan (s : List Char) : Scan :=
  match s.dropWhile isSpace with
  | [] => scanDigits false []
  | c :: t =>
    if c = '-' then scanDigits true t
    else if c = '+' then scanDigits false t
    else scanDigits false (c :: t)

/-- The integer of a sign and digits. -/
def signedValue (negative : Bool) (digits : List Char) : ℤ :=
  if negative then -(Nat.ofDigitChars 10 digits 0 : ℤ) else (Nat.ofDigitChars 10 digits 0 : ℤ)

/-- The range of a 32-bit `int`. -/
def InRange (n : ℤ) : Prop := -2 ^ 31 ≤ n ∧ n ≤ 2 ^ 31 - 1

instance (n : ℤ) : Decidable (InRange n) := inferInstanceAs (Decidable (_ ∧ _))

/-- The value stored and the flags set by an extraction. -/
structure Extraction where
  value : ℤ
  fail : Bool
  eof : Bool
deriving DecidableEq, Repr

/-- `operator>>` on an `int`: without digits or out of range it fails, and stores zero or the nearest `int`. -/
def extractInt (s : List Char) : Extraction :=
  let n := signedValue (scan s).negative (scan s).digits
  { value := max (-2 ^ 31) (min n (2 ^ 31 - 1))
    fail := (scan s).digits.isEmpty || !decide (InRange n)
    eof := (scan s).rest.isEmpty }

/-! ### The function -/

/-- An `llvm::StringError`: its `std::errc` and its message. -/
structure StringError where
  code : String
  message : String
deriving DecidableEq, Repr

/-- The characters of `c_str` that `%s` prints. -/
def cStr (S : String) : String := String.ofList (S.toList.takeWhile (· ≠ Char.ofNat 0))

/-- **`to_int`.** -/
def toInt (S : String) (matchWord : Bool) : Except StringError ℤ :=
  if (extractInt S.toList).fail then
    .error ⟨"invalid_argument", "Failed to parse int: " ++ cStr S⟩
  else if matchWord && !(extractInt S.toList).eof then
    .error ⟨"invalid_argument", "Failed to parse full string as int: " ++ cStr S⟩
  else .ok (extractInt S.toList).value

/-! ### The grammar -/

/-- **The text denotes the integer**: white space, an optional sign, one or more digits, and nothing else. -/
def Denotes (s : List Char) (n : ℤ) : Prop :=
  ∃ ws sign ds, s = ws ++ sign ++ ds ∧ (∀ c ∈ ws, isSpace c = true) ∧
    (sign = [] ∨ sign = ['+'] ∨ sign = ['-']) ∧ ds ≠ [] ∧ (∀ c ∈ ds, c.isDigit = true) ∧
    n = signedValue (decide (sign = ['-'])) ds

/-- The longest prefix that denotes an integer, with that integer. -/
def LongestPrefix (s p : List Char) (n : ℤ) : Prop :=
  p <+: s ∧ Denotes p n ∧ ∀ p' n', p' <+: s → Denotes p' n' → p'.length ≤ p.length

/-! ### What a scan finds -/

theorem isSpace_eq_false_of_isDigit {c : Char} (h : c.isDigit = true) : isSpace c = false := by
  by_contra hs
  simp only [isSpace, Bool.not_eq_false, Bool.or_eq_true, decide_eq_true_eq] at hs
  rcases hs with ((((rfl | rfl) | rfl) | rfl) | rfl) | rfl <;> revert h <;> decide

theorem scanDigits_append {ds : List Char} (hds : ∀ c ∈ ds, c.isDigit = true) (negative : Bool)
    (t : List Char) : scanDigits negative (ds ++ t) =
      ⟨negative, ds ++ t.takeWhile Char.isDigit, t.dropWhile Char.isDigit⟩ := by
  rw [scanDigits, List.takeWhile_append_of_pos hds, List.dropWhile_append_of_pos hds]

/-- **A scan finds the parts of a text**, whatever follows it. -/
theorem scan_append {ws sign ds : List Char} (hws : ∀ c ∈ ws, isSpace c = true)
    (hsign : sign = [] ∨ sign = ['+'] ∨ sign = ['-']) (hne : ds ≠ [])
    (hds : ∀ c ∈ ds, c.isDigit = true) (t : List Char) :
    scan (ws ++ sign ++ ds ++ t) =
      ⟨decide (sign = ['-']), ds ++ t.takeWhile Char.isDigit, t.dropWhile Char.isDigit⟩ := by
  obtain ⟨d, ds', rfl⟩ := List.exists_cons_of_ne_nil hne
  have hd := hds d List.mem_cons_self
  rw [scan, List.append_assoc, List.append_assoc, List.dropWhile_append_of_pos hws]
  rcases hsign with rfl | rfl | rfl
  · have hminus : d ≠ '-' := by
      rintro rfl
      revert hd
      decide
    have hplus : d ≠ '+' := by
      rintro rfl
      revert hd
      decide
    rw [List.nil_append, List.cons_append, List.dropWhile_cons_of_neg
      (by rw [isSpace_eq_false_of_isDigit hd]; exact Bool.false_ne_true)]
    dsimp only
    rw [if_neg hminus, if_neg hplus, ← List.cons_append, scanDigits_append hds]
    rfl
  · exact scanDigits_append hds false t
  · exact scanDigits_append hds true t

/-- What was scanned, put together again. -/
theorem scan_parts {s : List Char} (h : (scan s).digits ≠ []) :
    ∃ ws sign, s = ws ++ sign ++ (scan s).digits ++ (scan s).rest ∧ (∀ c ∈ ws, isSpace c = true) ∧
      (sign = [] ∨ sign = ['+'] ∨ sign = ['-']) ∧ decide (sign = ['-']) = (scan s).negative ∧
      ∀ c ∈ (scan s).digits, c.isDigit = true := by
  have hspace : ∀ c ∈ s.takeWhile isSpace, isSpace c = true := fun c hc =>
    List.all_eq_true.mp List.all_takeWhile c hc
  have hdigit : ∀ (t : List Char), ∀ c ∈ t.takeWhile Char.isDigit, c.isDigit = true := fun t c hc =>
    List.all_eq_true.mp List.all_takeWhile c hc
  have hsplit : s = s.takeWhile isSpace ++ s.dropWhile isSpace := List.takeWhile_append_dropWhile.symm
  rw [scan] at h ⊢
  cases hrest : s.dropWhile isSpace with
  | nil =>
    rw [hrest] at h
    exact absurd rfl h
  | cons c t =>
    rw [hrest] at h hsplit
    refine ⟨s.takeWhile isSpace, if c = '-' then ['-'] else if c = '+' then ['+'] else [], ?_⟩
    dsimp only
    by_cases hminus : c = '-'
    · subst hminus
      refine ⟨?_, hspace, .inr (.inr rfl), rfl, hdigit t⟩
      rw [if_pos rfl, if_pos rfl, List.append_assoc, scanDigits, List.takeWhile_append_dropWhile,
        List.append_assoc]
      exact hsplit
    · by_cases hplus : c = '+'
      · subst hplus
        refine ⟨?_, hspace, .inr (.inl rfl), rfl, hdigit t⟩
        rw [if_neg hminus, if_pos rfl, if_neg hminus, if_pos rfl, List.append_assoc, scanDigits,
          List.takeWhile_append_dropWhile, List.append_assoc]
        exact hsplit
      · rw [if_neg hminus, if_neg hplus]
        simp only [if_neg hminus, if_neg hplus]
        refine ⟨?_, hspace, .inl trivial, rfl, hdigit (c :: t)⟩
        rw [List.append_nil, List.append_assoc, scanDigits, List.takeWhile_append_dropWhile]
        exact hsplit

/-- A text denotes what a scan finds that leaves nothing. -/
theorem denotes_iff {s : List Char} {n : ℤ} : Denotes s n ↔ (scan s).digits ≠ [] ∧ (scan s).rest = [] ∧
    n = signedValue (scan s).negative (scan s).digits := by
  constructor
  · rintro ⟨ws, sign, ds, rfl, hws, hsign, hne, hds, rfl⟩
    have hscan := scan_append hws hsign hne hds []
    rw [List.append_nil] at hscan
    rw [hscan]
    simp [hne]
  · rintro ⟨hne, hrest, rfl⟩
    obtain ⟨ws, sign, hs, hws, hsign, hneg, hds⟩ := scan_parts hne
    rw [hrest, List.append_nil] at hs
    exact ⟨ws, sign, _, hs, hws, hsign, hne, hds, by rw [hneg]⟩

/-- **The longest prefix that denotes an integer** is what a scan consumes. -/
theorem longestPrefix_iff {s : List Char} {n : ℤ} : (∃ p, LongestPrefix s p n) ↔
    (scan s).digits ≠ [] ∧ n = signedValue (scan s).negative (scan s).digits := by
  constructor
  · rintro ⟨p, ⟨t, hs⟩, ⟨ws, sign, ds, rfl, hws, hsign, hne, hds, rfl⟩, hmax⟩
    have hscan := scan_append hws hsign hne hds t
    -- the digits after the prefix would make a longer one
    have hlonger : Denotes (ws ++ sign ++ (ds ++ t.takeWhile Char.isDigit))
        (signedValue (decide (sign = ['-'])) (ds ++ t.takeWhile Char.isDigit)) := by
      refine ⟨ws, sign, _, rfl, hws, hsign, by simp [hne], fun c hc => ?_, rfl⟩
      rcases List.mem_append.mp hc with hc | hc
      · exact hds c hc
      · exact List.all_eq_true.mp List.all_takeWhile c hc
    have hbegin : ws ++ sign ++ (ds ++ t.takeWhile Char.isDigit) <+: s := by
      refine ⟨t.dropWhile Char.isDigit, ?_⟩
      rw [← hs]
      simp only [List.append_assoc, List.takeWhile_append_dropWhile]
    have hlen := hmax _ _ hbegin hlonger
    simp only [List.length_append] at hlen
    have hnil : t.takeWhile Char.isDigit = [] := List.eq_nil_of_length_eq_zero (by omega)
    rw [← hs, hscan, hnil, List.append_nil]
    exact ⟨hne, rfl⟩
  · rintro ⟨hne, rfl⟩
    obtain ⟨ws, sign, hs, hws, hsign, hneg, hds⟩ := scan_parts hne
    refine ⟨ws ++ sign ++ (scan s).digits, ⟨_, hs.symm⟩, ⟨ws, sign, _, rfl, hws, hsign, hne, hds, by rw [hneg]⟩,
      ?_⟩
    rintro p' n' ⟨t', hs'⟩ ⟨ws', sign', ds', rfl, hws', hsign', hne', hds', -⟩
    have hrest : (scan s).rest = t'.dropWhile Char.isDigit := by
      rw [← hs', scan_append hws' hsign' hne' hds' t']
    have hle : (scan s).rest.length ≤ t'.length := by
      rw [hrest]
      exact (List.dropWhile_sublist _).length_le
    have hlen := congrArg List.length (hs.symm.trans hs'.symm)
    simp only [List.length_append] at hlen ⊢
    omega

/-! ### What the function does -/

/-- **When the function succeeds**: there are digits, the integer is in range, and where the whole string has
to match nothing is left. -/
theorem toInt_eq_ok {S : String} {matchWord : Bool} {n : ℤ} : toInt S matchWord = .ok n ↔
    (scan S.toList).digits ≠ [] ∧ (matchWord = true → (scan S.toList).rest = []) ∧ InRange n ∧
      n = signedValue (scan S.toList).negative (scan S.toList).digits := by
  generalize hr : scan S.toList = r
  have hfail : (extractInt S.toList).fail =
      (r.digits.isEmpty || !decide (InRange (signedValue r.negative r.digits))) := by
    rw [extractInt, hr]
  have heof : (extractInt S.toList).eof = r.rest.isEmpty := by
    rw [extractInt, hr]
  have hvalue : InRange (signedValue r.negative r.digits) →
      (extractInt S.toList).value = signedValue r.negative r.digits := by
    rintro ⟨hlow, hhigh⟩
    rw [extractInt, hr]
    show max _ (min _ _) = _
    rw [min_eq_left hhigh, max_eq_right hlow]
  rw [toInt, hfail, heof]
  constructor
  · intro h
    split at h
    · cases h
    · rename_i hno
      split at h
      · cases h
      · rename_i hmatch
        simp only [Bool.or_eq_true, Bool.not_eq_true', decide_eq_false_iff_not, not_or, not_not,
          List.isEmpty_iff] at hno
        rw [hvalue hno.2, Except.ok.injEq] at h
        subst h
        refine ⟨hno.1, fun hm => ?_, hno.2, rfl⟩
        simpa [hm] using hmatch
  · rintro ⟨hne, hrest, hrange, rfl⟩
    have hno : (r.digits.isEmpty || !decide (InRange (signedValue r.negative r.digits))) = false := by
      simp [hne, hrange]
    have hmatch : (matchWord && !r.rest.isEmpty) = false := by
      cases matchWord with
      | false => rfl
      | true => simp [hrest rfl]
    rw [hno, hmatch, hvalue hrange]
    rfl

/-- The decimal text of an integer denotes it. -/
theorem denotes_toString (n : ℤ) : Denotes (toString n).toList n := by
  have hdigits : ∀ m : ℕ, ∀ c ∈ Nat.toDigits 10 m, c.isDigit = true := fun m c hc =>
    Nat.isDigit_of_mem_toDigits (by decide) (by decide) hc
  cases n with
  | ofNat m =>
    refine ⟨[], [], Nat.toDigits 10 m, ?_, by simp, .inl rfl, Nat.toDigits_ne_nil, hdigits m, ?_⟩
    · exact Nat.toList_repr
    · rw [signedValue, Nat.ofDigitChars_ten_toDigits]
      rfl
  | negSucc m =>
    refine ⟨[], ['-'], Nat.toDigits 10 (m + 1), ?_, by simp, .inr (.inr rfl), Nat.toDigits_ne_nil,
      hdigits (m + 1), ?_⟩
    · show ("-" ++ Nat.repr (m + 1)).toList = _
      rw [String.toList_append, Nat.toList_repr]
      rfl
    · rw [signedValue, Nat.ofDigitChars_ten_toDigits]
      rfl

/-- **`to_int` accepts exactly its grammar, in both modes, and undoes decimal printing.** -/
theorem toInt_spec :
    (∀ S n, toInt S true = .ok n ↔ Denotes S.toList n ∧ InRange n) ∧
    (∀ S n, toInt S false = .ok n ↔ (∃ p, LongestPrefix S.toList p n) ∧ InRange n) ∧
    (∀ S n, toInt S true = .ok n → toInt S false = .ok n) ∧
    (∀ S p n, LongestPrefix S.toList p n → ¬ InRange n → ∀ m, ∃ e, toInt S m = .error e) ∧
    ∀ n, InRange n → ∀ m, toInt (toString n) m = .ok n := by
  refine ⟨fun S n => ?_, fun S n => ?_, fun S n h => ?_, fun S p n hp hrange m => ?_, fun n hrange m => ?_⟩
  · rw [toInt_eq_ok, denotes_iff]
    tauto
  · rw [toInt_eq_ok, longestPrefix_iff]
    simp only [Bool.false_eq_true, false_implies, true_and]
    tauto
  · rw [toInt_eq_ok] at h ⊢
    exact ⟨h.1, fun hm => (nomatch hm), h.2.2⟩
  · cases hrun : toInt S m with
    | error e => exact ⟨e, rfl⟩
    | ok n' =>
      obtain ⟨-, -, hrange', hn'⟩ := toInt_eq_ok.mp hrun
      obtain ⟨-, hn⟩ := longestPrefix_iff.mp ⟨p, hp⟩
      rw [hn, ← hn'] at hrange
      exact absurd hrange' hrange
  · obtain ⟨hne, hrest, hn⟩ := denotes_iff.mp (denotes_toString n)
    exact toInt_eq_ok.mpr ⟨hne, fun _ => hrest, hrange, hn⟩

end SnippetsLlvm.Misc
