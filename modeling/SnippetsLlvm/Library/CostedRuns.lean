import SnippetsLlvm.Library.LabelledRuns

/-!
# Runs with what their steps cost

What a step costs may depend on the state it is made from and not on the event it shows.  A costed run is a
run with the costs of its steps added up; every run is one.

* `CostedRun` — the runs with their costs, with `CostedRun.run` and `Run.costed`;
* `CostedRun.costInvariant` — what one step preserves of the events, the state and the cost, a run preserves;
* `CostedRun.append_inv` — a costed run splits where its events do;
* `CostedRun.cost_unique` — the events of a run tell its cost, where an event tells the action of its step.
-/

namespace SnippetsLlvm.Library

variable {S A E : Type*}

/-- The runs of a step function from `s`, with the events shown and the costs of the steps added up. -/
inductive CostedRun (step : S → A → Option (E × S)) (cost : S → A → ℕ) (s : S) :
    List E → S → ℕ → Prop where
  | nil : CostedRun step cost s [] s 0
  | snoc {es t n a e u} : CostedRun step cost s es t n → step t a = some (e, u) →
      CostedRun step cost s (es ++ [e]) u (n + cost t a)

variable {step : S → A → Option (E × S)} {cost : S → A → ℕ}

theorem CostedRun.run {s es t n} (h : CostedRun step cost s es t n) : Run step s es t := by
  induction h with
  | nil => exact .nil
  | snoc _ hstep ih => exact ih.snoc hstep

/-- Every run has a cost. -/
theorem Run.costed (cost : S → A → ℕ) {s es t} (h : Run step s es t) :
    ∃ n, CostedRun step cost s es t n := by
  induction h with
  | nil => exact ⟨0, .nil⟩
  | snoc _ hstep ih =>
    obtain ⟨n, hn⟩ := ih
    exact ⟨_, hn.snoc hstep⟩

/-- What every step preserves of the events shown, the state reached and the cost so far holds at the end of a
costed run, for runs whose events are all allowed. -/
theorem CostedRun.costInvariant (Inv : List E → S → ℕ → Prop) (Ok : E → Prop)
    (hstep : ∀ es s n a e t, Inv es s n → Ok e → step s a = some (e, t) → Inv (es ++ [e]) t (n + cost s a))
    {s es t n} (hrun : CostedRun step cost s es t n) (hok : ∀ e ∈ es, Ok e) (hs : Inv [] s 0) : Inv es t n := by
  induction hrun with
  | nil => exact hs
  | snoc _ h ih =>
    have hbefore := ih fun e he => hok e (List.mem_append_left _ he)
    exact hstep _ _ _ _ _ _ hbefore (hok _ (by simp)) h

/-- The last step of a nonempty costed run, and the run before it. -/
theorem CostedRun.snoc_inv {s es e u n} (hrun : CostedRun step cost s (es ++ [e]) u n) :
    ∃ t m a, CostedRun step cost s es t m ∧ step t a = some (e, u) ∧ n = m + cost t a := by
  generalize hes : es ++ [e] = es' at hrun
  cases hrun with
  | nil => simp at hes
  | snoc hrun h =>
    obtain ⟨rfl, rfl⟩ : es = _ ∧ e = _ := by simpa using List.append_inj' hes rfl
    exact ⟨_, _, _, hrun, h, rfl⟩

/-- A costed run splits where its events do, and its cost splits with it. -/
theorem CostedRun.append_inv {s es es' u n} (hrun : CostedRun step cost s (es ++ es') u n) :
    ∃ t m k, CostedRun step cost s es t m ∧ CostedRun step cost t es' u k ∧ n = m + k := by
  induction es' using List.reverseRecOn generalizing u n with
  | nil => exact ⟨u, n, 0, by simpa using hrun, .nil, rfl⟩
  | append_singleton es' e ih =>
    rw [← List.append_assoc] at hrun
    obtain ⟨v, m, a, hbefore, h, rfl⟩ := hrun.snoc_inv
    obtain ⟨t, m, k, h₁, h₂, rfl⟩ := ih hbefore
    exact ⟨t, m, k + cost v a, h₁, h₂.snoc h, Nat.add_assoc ..⟩

/-- **Where an event tells the action of its step**, the events of a run tell its cost. -/
theorem CostedRun.cost_unique {action : E → A} (haction : ∀ s a e t, step s a = some (e, t) → action e = a)
    {s es t n t' n'} (h : CostedRun step cost s es t n) (h' : CostedRun step cost s es t' n') :
    t = t' ∧ n = n' := by
  induction h generalizing t' n' with
  | nil =>
    generalize hes : [] = es at h'
    cases h' with
    | nil => exact ⟨rfl, rfl⟩
    | snoc => simp at hes
  | snoc _ hstep ih =>
    obtain ⟨v, m, b, hrun, hstep', rfl⟩ := h'.snoc_inv
    obtain ⟨rfl, rfl⟩ := ih hrun
    obtain rfl := (haction _ _ _ _ hstep).symm.trans (haction _ _ _ _ hstep')
    rw [hstep, Option.some.injEq, Prod.mk.injEq] at hstep'
    exact ⟨hstep'.2, rfl⟩

end SnippetsLlvm.Library
