import SnippetsLlvm.Library.LabelledRuns

/-!
# Refinements with silent steps

When a concrete machine refines an abstract one along a state map, some of its steps may be silent: the
abstract state stays.  A rank that every silent step lowers bounds the steps a concrete run makes without
showing anything, and where some silent step can be made from every state that is not ready for the abstract
step, it leads to one that is.

* `Descends` — every silent step lowers the rank;
* `Descends.length_le` — **a run that shows nothing is no longer than the rank of its first state**;
* `drain` — from every good state silent steps lead to a ready one;
* `Lifts.of_ready` — so steps matched from the ready states are matched from all good ones.
-/

namespace SnippetsLlvm.Library

variable {S A E C B F : Type*} {stepC : C → B → Option (F × C)} {stepA : S → A → Option (E × S)}
  {f : C → S} {abs : F → Option E} {Inv Ready : C → Prop} {Ok : F → Prop} {rank : C → ℕ}

/-- Every allowed step from a good state that shows nothing lowers the rank. -/
def Descends (stepC : C → B → Option (F × C)) (abs : F → Option E) (Inv : C → Prop) (Ok : F → Prop)
    (rank : C → ℕ) : Prop :=
  ∀ c b e c', Inv c → Ok e → stepC c b = some (e, c') → abs e = none → rank c' < rank c

/-- **A run that shows nothing is no longer than the rank of its first state.** -/
theorem Descends.length_le (hdesc : Descends stepC abs Inv Ok rank)
    (href : Refines stepC stepA f abs Inv Ok) {c c' : C} {es : List F} (hrun : Run stepC c es c')
    (hok : ∀ e ∈ es, Ok e) (hsilent : es.filterMap abs = []) (hc : Inv c) :
    es.length + rank c' ≤ rank c := by
  induction hrun with
  | nil => simp
  | @snoc es t b e u hrun h ih =>
    have hok' : ∀ e ∈ es, Ok e := by
      intro e he
      exact hok e (List.mem_append_left _ he)
    rw [List.filterMap_append, List.append_eq_nil_iff] at hsilent
    have hbound := ih hok' hsilent.1
    have hlast : abs e = none := by simpa using hsilent.2
    have hlt := hdesc t b e u (href.run hrun hok' hc).1 (hok e (by simp)) h hlast
    rw [List.length_append, List.length_singleton]
    omega

/-- **From every good state silent steps lead to a ready one**, when some silent step can be made from every
good state that is not ready. -/
theorem drain (hdesc : Descends stepC abs Inv Ok rank) (href : Refines stepC stepA f abs Inv Ok)
    (hprog : ∀ c, Inv c → Ready c ∨ ∃ b e c', stepC c b = some (e, c') ∧ Ok e ∧ abs e = none) (c : C)
    (hc : Inv c) : ∃ es c', Run stepC c es c' ∧ (∀ e ∈ es, Ok e) ∧ es.filterMap abs = [] ∧ f c' = f c ∧
      Inv c' ∧ Ready c' := by
  induction hrank : rank c using Nat.strongRecOn generalizing c with
  | ind n ih =>
    rcases hprog c hc with hready | ⟨b, e, c₁, hstep, he, hsilent⟩
    · exact ⟨[], c, .nil, by simp, rfl, rfl, hc, hready⟩
    · obtain ⟨hc₁, hsame⟩ := href c b e c₁ hc he hstep
      rw [hsilent] at hsame
      have hlt := hdesc c b e c₁ hc he hstep hsilent
      obtain ⟨es, c', hrun, hok, habs, hf, hinv, hready⟩ := ih (rank c₁) (by omega) c₁ hc₁ rfl
      refine ⟨e :: es, c', .cons hstep hrun, ?_, ?_, hf.trans hsame, hinv, hready⟩
      · intro e' he'
        rcases List.mem_cons.mp he' with rfl | he'
        · exact he
        · exact hok e' he'
      · rw [List.filterMap_cons_none hsilent, habs]

/-- **Steps matched from the ready states are matched from all good ones.** -/
theorem Lifts.of_ready {OkA : E → Prop} (hdesc : Descends stepC abs Inv Ok rank)
    (href : Refines stepC stepA f abs Inv Ok)
    (hprog : ∀ c, Inv c → Ready c ∨ ∃ b e c', stepC c b = some (e, c') ∧ Ok e ∧ abs e = none)
    (hmatch : ∀ c a e s', Inv c → Ready c → OkA e → stepA (f c) a = some (e, s') →
      ∃ b e' c', stepC c b = some (e', c') ∧ Ok e' ∧ abs e' = some e ∧ f c' = s') :
    Lifts stepC stepA f abs Inv Ok OkA := by
  intro c a e s' hc he hstep
  obtain ⟨es, c₁, hrun, hok, habs, hf, hc₁, hready⟩ := drain hdesc href hprog c hc
  rw [← hf] at hstep
  obtain ⟨b, e', c', hstepC, he', hshown, hf'⟩ := hmatch c₁ a e s' hc₁ hready he hstep
  refine ⟨es ++ [e'], c', hrun.snoc hstepC, ?_, ?_, hf', (href c₁ b e' c' hc₁ he' hstepC).1⟩
  · intro x hx
    rcases List.mem_append.mp hx with hx | hx
    · exact hok x hx
    · rw [List.mem_singleton.mp hx]
      exact he'
  · rw [List.filterMap_append, habs, List.filterMap_cons_some hshown, List.filterMap_nil, List.nil_append]

end SnippetsLlvm.Library
