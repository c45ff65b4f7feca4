import Mathlib.Data.List.Basic

/-!
# Computations that emit or fail

A printer walks over nested lists and appends what each element emits, and the first element that fails
ends the walk.  Nothing here depends on what is walked over or emitted.

* `bind_eq_ok` — a sequence of two computations succeeds when both do;
* `emitAll` — the walk over one list; walks nest, an element of one being a list of the next;
* `emitAll_ok_iff` — **a walk succeeds exactly when it succeeds at every element**;
* `emitAll_eq` — and it then emits what the elements emit, in order.
-/

namespace SnippetsLlvm.Library

variable {ε α β σ : Type*}

/-- Running the first part of a computation to its result. -/
theorem bind_eq_ok {ε α β : Type*} {x : Except ε α} {f : α → Except ε β} {r : β} :
    x.bind f = .ok r ↔ ∃ a, x = .ok a ∧ f a = .ok r := by
  cases x with
  | error e => simp [Except.bind]
  | ok a => simp [Except.bind]

/-- Where a computation in two parts fails. -/
theorem bind_eq_error {ε α β : Type*} {x : Except ε α} {f : α → Except ε β} {e : ε} :
    x.bind f = .error e ↔ x = .error e ∨ ∃ a, x = .ok a ∧ f a = .error e := by
  cases x with
  | error e' => simp [Except.bind]
  | ok a => simp [Except.bind]

/-- Whether a computation succeeds. -/
def Succeeds (x : Except ε α) : Prop := ∃ a, x = .ok a

/-- What a computation emits; nothing if it fails. -/
def emitted (x : Except ε (List σ)) : List σ :=
  match x with
  | .ok ys => ys
  | .error _ => []

@[simp] theorem succeeds_ok (a : α) : Succeeds (.ok a : Except ε α) := ⟨a, rfl⟩

@[simp] theorem not_succeeds_error (e : ε) : ¬ Succeeds (.error e : Except ε α) := by
  intro h
  obtain ⟨a, ha⟩ := h
  cases ha

@[simp] theorem emitted_ok (ys : List σ) : emitted (.ok ys : Except ε (List σ)) = ys := rfl

theorem succeeds_bind {x : Except ε α} {f : α → Except ε β} :
    Succeeds (x.bind f) ↔ ∃ a, x = .ok a ∧ Succeeds (f a) := by
  cases x with
  | error e => simp [Except.bind]
  | ok a => simp [Except.bind]

@[simp] theorem succeeds_map {x : Except ε α} {f : α → β} : Succeeds (x.map f) ↔ Succeeds x := by
  cases x with
  | error e => simp [Except.map]
  | ok a => simp [Except.map]

/-- The walk over a list. -/
def emitAll (f : α → Except ε (List σ)) : List α → Except ε (List σ)
  | [] => .ok []
  | x :: xs => (f x).bind fun ys => (emitAll f xs).map fun zs => ys ++ zs

theorem emitAll_ok_iff {f : α → Except ε (List σ)} {xs : List α} :
    Succeeds (emitAll f xs) ↔ ∀ x ∈ xs, Succeeds (f x) := by
  induction xs with
  | nil => simp [emitAll]
  | cons x xs ih =>
    rw [emitAll, succeeds_bind, List.forall_mem_cons, ← ih]
    constructor
    · rintro ⟨ys, hys, h⟩
      exact ⟨⟨ys, hys⟩, succeeds_map.mp h⟩
    · rintro ⟨⟨ys, hys⟩, h⟩
      exact ⟨ys, hys, succeeds_map.mpr h⟩

theorem emitAll_eq {f : α → Except ε (List σ)} {xs : List α} (h : Succeeds (emitAll f xs)) :
    emitAll f xs = .ok (xs.flatMap fun x => emitted (f x)) := by
  induction xs with
  | nil => rfl
  | cons x xs ih =>
    have hall := emitAll_ok_iff.mp h
    obtain ⟨ys, hys⟩ := hall x List.mem_cons_self
    have htail := ih (emitAll_ok_iff.mpr fun y hy => hall y (List.mem_cons_of_mem x hy))
    rw [emitAll, hys, htail, List.flatMap_cons, hys]
    rfl

theorem emitted_emitAll {f : α → Except ε (List σ)} {xs : List α} (h : Succeeds (emitAll f xs)) :
    emitted (emitAll f xs) = xs.flatMap fun x => emitted (f x) := by
  rw [emitAll_eq h, emitted_ok]

/-- What holds of the elements numbered holds of the elements. -/
theorem forall_mem_zipIdx {xs : List α} {p : α → Prop} :
    (∀ q ∈ xs.zipIdx, p q.1) ↔ ∀ x ∈ xs, p x := by
  constructor
  · intro h x hx
    obtain ⟨i, hi⟩ := List.mem_iff_getElem?.mp hx
    exact h (x, i) (List.mem_zipIdx_iff_getElem?.mpr hi)
  · intro h q hq
    exact h q.1 (List.mem_of_getElem? (List.mem_zipIdx_iff_getElem?.mp hq))

end SnippetsLlvm.Library
