import Mathlib.Data.List.Induction

/-!
# Runs of a labelled step function

A machine is a partial step function: given a state and an action it gives the event the step shows and
the next state, or nothing when the action is not possible.  Nothing here depends on what the states are.

* `Run` — the runs, with the events they show;
* `Run.traceInvariant` — what one step preserves, a run preserves, the events shown so far included;
* `follow` — the run along a list of actions, computed; `Run.follow` — a run is the one along its actions,
  where an event tells its action;
* `restrict` — the steps from some of the states only; `Run.restricted` — a run that keeps to them;
* `Refines` — every step of the concrete machine is a step of the abstract one along a state map, or a
  stutter; `Refines.run` lifts it to runs;
* `Lifts` — every step of the abstract machine is matched by some steps of the concrete one;
  `Lifts.run` lifts it to runs.
-/

namespace SnippetsLlvm.Library

variable {S A E : Type*}

/-- The runs of a step function from `s`, with the events shown. -/
inductive Run (step : S → A → Option (E × S)) (s : S) : List E → S → Prop where
  | nil : Run step s [] s
  | snoc {es t a e u} : Run step s es t → step t a = some (e, u) → Run step s (es ++ [e]) u

namespace Run

variable {step : S → A → Option (E × S)}

theorem single {s a e t} (h : step s a = some (e, t)) : Run step s [e] t := by
  have hnil : Run step s [] s := .nil
  exact hnil.snoc h

theorem trans {s es t es' u} (h₁ : Run step s es t) (h₂ : Run step t es' u) :
    Run step s (es ++ es') u := by
  induction h₂ with
  | nil => simpa using h₁
  | snoc _ hstep ih =>
    rw [← List.append_assoc]
    exact ih.snoc hstep

/-- A run that begins with a given step. -/
theorem cons {s a e t es u} (h : step s a = some (e, t)) (hrun : Run step t es u) :
    Run step s (e :: es) u :=
  (single h).trans hrun

/-- What every step preserves of the events shown and the state reached holds at the end of a run, for runs
whose events are all allowed. -/
theorem traceInvariant (Inv : List E → S → Prop) (Ok : E → Prop)
    (hstep : ∀ es s a e t, Inv es s → Ok e → step s a = some (e, t) → Inv (es ++ [e]) t)
    {s es t} (hrun : Run step s es t) (hok : ∀ e ∈ es, Ok e) (hs : Inv [] s) : Inv es t := by
  induction hrun with
  | nil => exact hs
  | snoc _ h ih =>
    have ht := ih fun e he => hok e (by simp [he])
    exact hstep _ _ _ _ _ ht (hok _ (by simp)) h

/-- The last step of a nonempty run, and the run before it. -/
theorem snoc_inv {s es e u} (hrun : Run step s (es ++ [e]) u) :
    ∃ t a, Run step s es t ∧ step t a = some (e, u) := by
  generalize hes : es ++ [e] = es' at hrun
  cases hrun with
  | nil => simp at hes
  | snoc hrun h =>
    obtain ⟨rfl, rfl⟩ : es = _ ∧ e = _ := by simpa using List.append_inj' hes rfl
    exact ⟨_, _, hrun, h⟩

/-- A run splits where its events do. -/
theorem append_inv {s es es' u} (hrun : Run step s (es ++ es') u) :
    ∃ t, Run step s es t ∧ Run step t es' u := by
  induction es' using List.reverseRecOn generalizing u with
  | nil => exact ⟨u, by simpa using hrun, nil⟩
  | append_singleton es' e ih =>
    rw [← List.append_assoc] at hrun
    obtain ⟨v, a, hrun, h⟩ := hrun.snoc_inv
    obtain ⟨t, h₁, h₂⟩ := ih hrun
    exact ⟨t, h₁, h₂.snoc h⟩

end Run

/-! ### Executing a list of actions -/

/-- The run along the given actions, when each of them is possible. -/
def follow (step : S → A → Option (E × S)) (s : S) : List A → Option (List E × S)
  | [] => some ([], s)
  | a :: as => (step s a).bind fun r => (follow step r.2 as).map fun q => (r.1 :: q.1, q.2)

theorem Run.of_follow {step : S → A → Option (E × S)} {s : S} {as : List A} {es : List E} {t : S}
    (h : follow step s as = some (es, t)) : Run step s es t := by
  induction as generalizing s es with
  | nil =>
    cases h
    exact .nil
  | cons a as ih =>
    obtain ⟨r, hr, h⟩ := Option.bind_eq_some_iff.mp h
    obtain ⟨q, hq, h⟩ := Option.map_eq_some_iff.mp h
    cases h
    exact .cons hr (ih hq)

theorem follow_append {step : S → A → Option (E × S)} {s : S} {as bs : List A} {es : List E} {t : S}
    (h : follow step s as = some (es, t)) :
    follow step s (as ++ bs) = (follow step t bs).map fun q => (es ++ q.1, q.2) := by
  induction as generalizing s es with
  | nil =>
    cases h
    simp
  | cons a as ih =>
    obtain ⟨r, hr, h⟩ := Option.bind_eq_some_iff.mp h
    obtain ⟨q, hq, h⟩ := Option.map_eq_some_iff.mp h
    cases h
    rw [List.cons_append, follow, hr, Option.bind_some, ih hq, Option.map_map]
    rfl

/-- **A run is the run along its actions**, where an event tells the action of its step. -/
theorem Run.follow {step : S → A → Option (E × S)} {action : E → A}
    (haction : ∀ s a e t, step s a = some (e, t) → action e = a) {s : S} {es : List E} {t : S}
    (hrun : Run step s es t) : follow step s (es.map action) = some (es, t) := by
  induction hrun with
  | nil => rfl
  | @snoc es t a e u _ h ih =>
    rw [List.map_append, follow_append ih, List.map_singleton, haction _ _ _ _ h, Library.follow, h]
    rfl

/-- The events of a run along a list of actions tell the actions. -/
theorem map_action_of_follow {step : S → A → Option (E × S)} {action : E → A}
    (haction : ∀ s a e t, step s a = some (e, t) → action e = a) {s : S} {as : List A} {es : List E}
    {t : S} (h : follow step s as = some (es, t)) : es.map action = as := by
  induction as generalizing s es with
  | nil =>
    cases h
    rfl
  | cons a as ih =>
    obtain ⟨r, hr, h⟩ := Option.bind_eq_some_iff.mp h
    obtain ⟨q, hq, h⟩ := Option.map_eq_some_iff.mp h
    cases h
    rw [List.map_cons, haction _ _ _ _ hr, ih hq]

/-! ### Steps from some of the states -/

/-- The steps from the states that satisfy `p`. -/
def restrict (p : S → Bool) (step : S → A → Option (E × S)) (s : S) (a : A) : Option (E × S) :=
  if p s then step s a else none

theorem restrict_eq_some {p : S → Bool} {step : S → A → Option (E × S)} {s : S} {a : A} {r : E × S} :
    restrict p step s a = some r ↔ p s = true ∧ step s a = some r := by
  rw [restrict]
  by_cases h : p s = true
  · rw [if_pos h]
    simp [h]
  · rw [if_neg h]
    simp [h]

/-- A run through states of an invariant that all satisfy `p` keeps to the steps from such states. -/
theorem Run.restricted {p : S → Bool} {step : S → A → Option (E × S)} (Inv : S → Prop)
    (hstep : ∀ s a e t, Inv s → step s a = some (e, t) → Inv t) (hp : ∀ s, Inv s → p s = true) {s es t}
    (hrun : Run step s es t) (hs : Inv s) : Run (restrict p step) s es t ∧ Inv t := by
  induction hrun with
  | nil => exact ⟨.nil, hs⟩
  | snoc _ h ih =>
    obtain ⟨hbefore, hinv⟩ := ih
    exact ⟨hbefore.snoc (restrict_eq_some.mpr ⟨hp _ hinv, h⟩), hstep _ _ _ _ hinv h⟩

/-! ### Refinement along a state map -/

variable {C B F : Type*}

/-- Every allowed concrete step from a good state leads to a good state and is, along the state map `f`,
the abstract step its event stands for, or none at all. -/
def Refines (stepC : C → B → Option (F × C)) (stepA : S → A → Option (E × S)) (f : C → S)
    (abs : F → Option E) (Inv : C → Prop) (Ok : F → Prop) : Prop :=
  ∀ c b e c', Inv c → Ok e → stepC c b = some (e, c') →
    Inv c' ∧ match abs e with
      | some e' => ∃ a, stepA (f c) a = some (e', f c')
      | none => f c' = f c

theorem Refines.run {stepC : C → B → Option (F × C)} {stepA : S → A → Option (E × S)} {f : C → S}
    {abs : F → Option E} {Inv : C → Prop} {Ok : F → Prop} (href : Refines stepC stepA f abs Inv Ok)
    {c es c'} (hrun : Run stepC c es c') (hok : ∀ e ∈ es, Ok e) (hc : Inv c) :
    Inv c' ∧ Run stepA (f c) (es.filterMap abs) (f c') := by
  induction hrun with
  | nil => exact ⟨hc, .nil⟩
  | @snoc es t b e u _ h ih =>
    obtain ⟨ht, hrunA⟩ := ih fun e he => hok e (by simp [he])
    obtain ⟨hu, hmatch⟩ := href _ _ _ _ ht (hok e (by simp)) h
    refine ⟨hu, ?_⟩
    rw [List.filterMap_append]
    cases habs : abs e with
    | none =>
      rw [habs] at hmatch
      rw [List.filterMap_cons_none habs, List.filterMap_nil, List.append_nil, hmatch]
      exact hrunA
    | some e' =>
      rw [habs] at hmatch
      obtain ⟨a, ha⟩ := hmatch
      rw [List.filterMap_cons_some habs, List.filterMap_nil]
      exact hrunA.snoc ha

/-- Every allowed abstract step from the image of a good state is matched by concrete steps, allowed
themselves, that show nothing else and lead to a good state over the abstract one. -/
def Lifts (stepC : C → B → Option (F × C)) (stepA : S → A → Option (E × S)) (f : C → S)
    (abs : F → Option E) (Inv : C → Prop) (OkC : F → Prop) (OkA : E → Prop) : Prop :=
  ∀ c a e s', Inv c → OkA e → stepA (f c) a = some (e, s') →
    ∃ es c', Run stepC c es c' ∧ (∀ e' ∈ es, OkC e') ∧ es.filterMap abs = [e] ∧ f c' = s' ∧ Inv c'

theorem Lifts.run {stepC : C → B → Option (F × C)} {stepA : S → A → Option (E × S)} {f : C → S}
    {abs : F → Option E} {Inv : C → Prop} {OkC : F → Prop} {OkA : E → Prop}
    (hlift : Lifts stepC stepA f abs Inv OkC OkA) {c es s'} (hrun : Run stepA (f c) es s')
    (hok : ∀ e ∈ es, OkA e) (hc : Inv c) :
    ∃ es' c', Run stepC c es' c' ∧ (∀ e ∈ es', OkC e) ∧ es'.filterMap abs = es ∧ f c' = s' ∧
      Inv c' := by
  induction hrun with
  | nil => exact ⟨[], c, .nil, by simp, rfl, rfl, hc⟩
  | @snoc es t a e u _ h ih =>
    obtain ⟨es₁, c₁, hrun₁, hok₁, habs₁, rfl, hc₁⟩ := ih fun e he => hok e (by simp [he])
    obtain ⟨es₂, c₂, hrun₂, hok₂, habs₂, hf, hc₂⟩ := hlift _ _ _ _ hc₁ (hok e (by simp)) h
    refine ⟨es₁ ++ es₂, c₂, hrun₁.trans hrun₂, ?_, ?_, hf, hc₂⟩
    · intro e' he'
      exact (List.mem_append.mp he').elim (hok₁ e') (hok₂ e')
    · rw [List.filterMap_append, habs₁, habs₂]

end SnippetsLlvm.Library
