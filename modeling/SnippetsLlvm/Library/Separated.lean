import Mathlib.Data.List.Basic

/-!
# Texts made of terminated words

A printer that writes a separator after each word, and a header before the lines of each group, can be read
back: the words do not have the separator in them, and headers are told from lines.  Nothing here depends on
what the words are.

* `terminatedWords` — what stands before each separator;
* `terminatedWords_flatMap` — **it undoes writing the separator after each word**;
* `groups` — lines under their headers;
* `groups_flatMap` — **it undoes writing each header before its lines**.
-/

namespace SnippetsLlvm.Library

/-- The characters of texts put together. -/
theorem toList_join (ss : List String) : (String.join ss).toList = ss.flatMap String.toList := by
  induction ss with
  | nil => rfl
  | cons s ss ih => rw [String.join_cons, String.toList_append, ih, List.flatMap_cons]

/-! ### Words and separators -/

section Words

variable {α : Type*} [BEq α] [LawfulBEq α] {c : α}

/-- Splitting finds the terminated words, and then what follows the last separator. -/
theorem splitOn_terminated {ws : List (List α)} {rest : List α} (hws : ∀ w ∈ ws, c ∉ w) (hrest : c ∉ rest) :
    (ws.flatMap (· ++ [c]) ++ rest).splitOn c = ws ++ [rest] := by
  induction ws with
  | nil => exact List.splitOn_eq_singleton hrest
  | cons w ws ih =>
    have hw : c ∉ w := hws w List.mem_cons_self
    have htail : (ws.flatMap (· ++ [c]) ++ rest).splitOn c = ws ++ [rest] :=
      ih fun v hv => hws v (List.mem_cons_of_mem w hv)
    rw [List.flatMap_cons, List.append_assoc, List.append_assoc, List.singleton_append,
      List.splitOn_append_cons_self, List.splitOn_eq_singleton hw, htail]
    rfl

/-- What stands before each separator. -/
def terminatedWords (c : α) (s : List α) : List (List α) := (s.splitOn c).dropLast

theorem terminatedWords_append {ws : List (List α)} {rest : List α} (hws : ∀ w ∈ ws, c ∉ w) (hrest : c ∉ rest) :
    terminatedWords c (ws.flatMap (· ++ [c]) ++ rest) = ws := by
  rw [terminatedWords, splitOn_terminated hws hrest, List.dropLast_concat]

/-- **The words are read back.** -/
theorem terminatedWords_flatMap {ws : List (List α)} (hws : ∀ w ∈ ws, c ∉ w) :
    terminatedWords c (ws.flatMap (· ++ [c])) = ws := by
  have h : terminatedWords c (ws.flatMap (· ++ [c]) ++ []) = ws :=
    terminatedWords_append hws List.not_mem_nil
  rwa [List.append_nil] at h

omit [BEq α] [LawfulBEq α] in
/-- Terminated words end with the separator. -/
theorem getLast?_terminated {ws : List (List α)} (hne : ws ≠ []) : (ws.flatMap (· ++ [c])).getLast? = some c := by
  obtain ⟨vs, v, rfl⟩ := (List.eq_nil_or_concat' ws).resolve_left hne
  rw [List.flatMap_append, List.flatMap_singleton, ← List.append_assoc, List.getLast?_concat]

end Words

/-! ### Headers and lines -/

section Groups

variable {α : Type*} {isHeader : α → Bool}

/-- The lines before the first header, and each header with the lines up to the next one. -/
def groups (isHeader : α → Bool) : List α → List α × List (α × List α)
  | [] => ([], [])
  | x :: xs =>
    if isHeader x then ([], (x, (groups isHeader xs).1) :: (groups isHeader xs).2)
    else (x :: (groups isHeader xs).1, (groups isHeader xs).2)

/-- Lines join the lines before the next header. -/
theorem groups_append {ls : List α} (hls : ∀ l ∈ ls, isHeader l = false) (xs : List α) :
    groups isHeader (ls ++ xs) = (ls ++ (groups isHeader xs).1, (groups isHeader xs).2) := by
  induction ls with
  | nil => rfl
  | cons l ls ih =>
    have hl : isHeader l = false := hls l List.mem_cons_self
    have htail := ih fun m hm => hls m (List.mem_cons_of_mem l hm)
    rw [List.cons_append, groups, htail, hl]
    rfl

/-- **The groups are read back.** -/
theorem groups_flatMap {ps : List (α × List α)}
    (hps : ∀ p ∈ ps, isHeader p.1 = true ∧ ∀ l ∈ p.2, isHeader l = false) :
    groups isHeader (ps.flatMap fun p => p.1 :: p.2) = ([], ps) := by
  induction ps with
  | nil => rfl
  | cons p ps ih =>
    have hp := hps p List.mem_cons_self
    have htail := ih fun q hq => hps q (List.mem_cons_of_mem p hq)
    rw [List.flatMap_cons, List.cons_append, groups, groups_append hp.2, htail, hp.1, List.append_nil]
    rfl

end Groups

end SnippetsLlvm.Library
