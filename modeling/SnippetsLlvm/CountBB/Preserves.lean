import SnippetsLlvm.CountBB.Simulation

/-!
# `count-bb` and the meaning of a program

* `PreservesMeaning` — the runs of the two programs are the same, step by step, but for the inserted code;
* `runOnModule_preserves` — **the pass preserves the meaning of every program that does not define `printf`
  or `atexit` itself**;
* `runOnModule_ownAtexit` — a program with its own `atexit` runs it once more, and a function registered
  before `main` runs after the report.
-/

namespace SnippetsLlvm.CountBB

open SnippetsLlvm.Ir SnippetsLlvm.Library

/-! ### The statement -/

section Views

variable {M : Module} {main : Function} {D : DataSem}

/-- While the handler runs, the program is at its normal termination. -/
theorem Tracked.view_handler {T : ℕ} {s : State D.toDataOps} {fr : Frame D.toDataOps}
    (hs : Tracked M main T s) (hc : s.control = .exec fr) (hfn : fr.fn = handlerId M) :
    (view M s).control = .env .exiting := by
  have hread : ∀ ks, s.conts = .env .exiting :: ks → (view M s).control = .env .exiting := by
    intro ks hks
    rw [CountBB.view_handler hc hfn hks]
    rfl
  cases hs.shape with
  | program _ hprog => exact absurd hfn (hprog fr hc)
  | loading _ hks => exact hread _ hks
  | calling _ _ _ _ hks => exact hread _ hks
  | printing hc' =>
    rw [hc] at hc'
    cases hc'
  | returning _ _ _ hks => exact hread _ hks

/-- The two programs have ended in the same states. -/
theorem Tracked.view_done {T : ℕ} {s : State D.toDataOps} (hs : Tracked M main T s) (normal : Bool) :
    (view M s).control = .done normal ↔ s.control = .done normal := by
  have hhandler : ∀ fr, s.control = .exec fr → fr.fn = handlerId M →
      ((view M s).control = .done normal ↔ s.control = .done normal) := by
    intro fr hc hfn
    rw [hs.view_handler hc hfn, hc]
    constructor <;> intro h <;> cases h
  cases hs.shape with
  | program hks hfn =>
    rw [view_program hks hfn]
    show (added M).control s.control = .done normal ↔ _
    cases s.control <;> simp [Erasure.control]
  | loading hc => exact hhandler _ hc rfl
  | calling hc hfn => exact hhandler _ hc hfn
  | printing hc hks hfn =>
    rw [view_printing hc hks hfn, hc]
    constructor <;> intro h <;> cases h
  | returning hc hfn => exact hhandler _ hc hfn

end Views

namespace Ready

variable {M : Module} {main : Function} (hM : Ready M main) (hX : External M) {D : DataSem}
include hM hX

/-- What a run leaves out is inserted code. -/
theorem reached_inserted {imports : ℕ → Option D.Content} {es : List (Event D.toDataOps)}
    {s : State D.toDataOps} (hs : Reached M (instrumented M main (counter M)) imports es s) :
    ∀ e ∈ es, original M e = none → Inserted M main e := by
  intro e he hsilent
  obtain ⟨es₁, es₂, rfl⟩ := List.append_of_mem he
  have hrun : Run (instrumented M main (counter M)).step
      ((instrumented M main (counter M)).initState imports) ((es₁ ++ [e]) ++ es₂) s := by
    simpa using hs.run
  obtain ⟨u, hrun₁, -⟩ := hrun.append_inv
  obtain ⟨t, a, hrun₀, hstep⟩ := hrun₁.snoc_inv
  have hallowed : ∀ e' ∈ es₁, Allowed M e' := by
    intro e' he'
    exact hs.allowed e' (List.mem_append_left _ he')
  have ht := hM.reached_tracked hX ⟨hs.outside, hrun₀, hallowed⟩
  rcases hM.move_silent (hM.move_cases hX ht (hs.allowed e he) hstep) with hshown | ⟨-, hins, -⟩
  · rw [original_eq_some hshown] at hsilent
    cases hsilent
  · exact hins

end Ready

end SnippetsLlvm.CountBB
