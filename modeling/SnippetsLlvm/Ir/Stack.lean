import SnippetsLlvm.Ir.Steps

/-!
# What the environment runs on top of

Only an external function is called on top of something else.  The start of the program, the call of `main`
and the code that runs at exit are the bottom of the stack, so a return of `main` and the end of the program
leave nothing waiting.

* `Grounded` — the invariant; `step_grounded`, `run_grounded`;
* `conts_of_done` — when the program has terminated normally, nothing waits.
-/

namespace SnippetsLlvm.Ir

open SnippetsLlvm.Library

variable {M : Module} {D : DataOps}

/-- Outside external functions the environment is at the bottom of the stack. -/
structure Grounded (s : State D) : Prop where
  control : ∀ k, s.control = .env k → k ≠ .ext → s.conts = []
  conts : ∀ k rest, (.env k :: rest) <:+ s.conts → k ≠ .ext → rest = []

/-- What a frame waits on top of is as before. -/
theorem Grounded.suffix {s : State D} (hs : Grounded s) {ks : List (Cont D)} (hks : ks <:+ s.conts) :
    ∀ k rest, (.env k :: rest) <:+ ks → k ≠ .ext → rest = [] :=
  fun k rest h hk => hs.conts k rest (h.trans hks) hk

theorem Grounded.push {s : State D} (hs : Grounded s) (fr : Frame D) (site : Instruction) :
    ∀ k rest, (.env k :: rest) <:+ .frame fr site :: s.conts → k ≠ .ext → rest = [] := by
  intro k rest h hk
  rcases List.suffix_cons_iff.mp h with heq | h
  · cases heq
  · exact hs.conts k rest h hk

/-- The environment calls a function of the module from the bottom, or from an external function. -/
theorem Grounded.pushEnv {s : State D} (hs : Grounded s) {k : EnvKind} (hk : s.control = .env k) (k' : EnvKind)
    (hbottom : k = .ext → k' = .ext) :
    ∀ j rest, (.env j :: rest) <:+ .env k' :: s.conts → j ≠ .ext → rest = [] := by
  intro j rest h hj
  rcases List.suffix_cons_iff.mp h with heq | h
  · rw [List.cons.injEq] at heq
    obtain ⟨hjk, rfl⟩ := heq
    cases hjk
    exact hs.control k hk fun hext => hj (hbottom hext)
  · exact hs.conts j rest h hj

theorem grounded_return {s : State D} (hs : Grounded s) {v : Val D.Data} {r : Control D × List (Cont D)}
    (h : M.returnTo v s.conts = some r) : Grounded { s with control := r.1, conts := r.2 } := by
  have hc := return_cases h
  generalize hks : s.conts = ks at hc
  have hsuffix : ∀ k rest, ks = k :: rest → rest <:+ s.conts := by
    intro k rest heq
    rw [hks, heq]
    exact List.suffix_cons k rest
  cases hc with
  | frame hd => exact ⟨fun k hk => (nomatch hk), hs.suffix (hsuffix _ _ rfl)⟩
  | main => exact ⟨fun _ _ _ => rfl, fun k rest h => by simp at h⟩
  | @env k rest hk =>
    refine ⟨fun j hj hext => ?_, hs.suffix (hsuffix _ _ rfl)⟩
    cases hj
    exact hs.conts k rest (by rw [hks]) hext

theorem grounded_unwind {s : State D} (hs : Grounded s) {exn : Val D.Data} {r : Control D × List (Cont D)}
    (h : M.unwind exn s.conts = some r) : Grounded { s with control := r.1, conts := r.2 } := by
  have hc := unwind_cases h
  generalize hks : s.conts = ks at hc
  have hsuffix : ∀ k rest, ks = k :: rest → rest <:+ s.conts := by
    intro k rest heq
    rw [hks, heq]
    exact List.suffix_cons k rest
  cases hc with
  | caught => exact ⟨fun k hk => (nomatch hk), hs.suffix (hsuffix _ _ rfl)⟩
  | passed => exact ⟨fun k hk => (nomatch hk), hs.suffix (hsuffix _ _ rfl)⟩
  | ext =>
    refine ⟨fun k hk hext => ?_, hs.suffix (hsuffix _ _ rfl)⟩
    cases hk
    exact absurd rfl hext
  | terminate => exact ⟨fun k hk => (nomatch hk), fun k rest h => by simp at h⟩

theorem grounded_env {s s' : State D} {k : EnvKind} {a : Act D} (hs : Grounded s) (hk : s.control = .env k)
    (h : M.envStep s k a = some s') : Grounded s' := by
  cases env_cases h with
  | ret hconts =>
    refine ⟨fun k hk => (nomatch hk), hs.suffix ?_⟩
    rw [hconts]
    exact List.suffix_cons _ _
  | throw => exact ⟨fun k hk => (nomatch hk), hs.conts⟩
  | callback => exact ⟨fun k hk => (nomatch hk), hs.pushEnv hk k id⟩
  | runMain =>
    refine ⟨fun k hk => (nomatch hk), hs.pushEnv hk .crtMain fun h => ?_⟩
    cases h
  | runHandler => exact ⟨fun k hk => (nomatch hk), hs.pushEnv hk .exiting id⟩
  | write => exact ⟨hs.control, hs.conts⟩
  | malloc => exact ⟨hs.control, hs.conts⟩
  | skipHandler => exact ⟨hs.control, hs.conts⟩
  | exit => exact ⟨fun _ _ _ => rfl, fun k rest h => by simp at h⟩
  | finish => exact ⟨fun k hk => (nomatch hk), hs.conts⟩
  | abort => exact ⟨fun k hk => (nomatch hk), hs.conts⟩

/-- **A step keeps the environment at the bottom.** -/
theorem step_grounded {s s' : State D} {a : Act D} {e : Event D} (hs : Grounded s)
    (h : M.step s a = some (e, s')) : Grounded s' := by
  cases step_cases h with
  | callOut =>
    refine ⟨fun k hk hext => ?_, hs.push _ _⟩
    cases hk
    exact absurd rfl hext
  | callIn => exact ⟨fun k hk => (nomatch hk), hs.push _ _⟩
  | ret _ _ _ _ hr => exact grounded_return hs hr
  | unwind _ hr => exact grounded_unwind hs hr
  | env hk henv => exact grounded_env hs hk henv
  | _ => exact ⟨fun k hk => (nomatch hk), hs.conts⟩

theorem grounded_init (imports : ℕ → Option D.Content) : Grounded (M.initState imports) :=
  ⟨fun _ _ _ => rfl, fun k rest h => by simp [Module.initState] at h⟩

theorem run_grounded {imports : ℕ → Option D.Content} {es : List (Event D)} {s : State D}
    (hrun : Run M.step (M.initState imports) es s) : Grounded s :=
  Run.traceInvariant (fun _ s => Grounded s) (fun _ => True) (fun _ _ _ _ _ hs _ h => step_grounded hs h) hrun
    (fun _ _ => trivial) (grounded_init imports)

/-- **When the program has terminated normally, nothing waits.** -/
theorem conts_of_done {s s' : State D} {a : Act D} {e : Event D} (hs : Grounded s)
    (h : M.step s a = some (e, s')) (hdone : s'.control = .done true) : s'.conts = [] := by
  cases step_cases h with
  | ret _ _ _ _ hr =>
    have hc := return_cases hr
    generalize s.conts = ks at hc
    cases hc with
    | _ => cases hdone
  | unwind _ hr =>
    have hc := unwind_cases hr
    generalize s.conts = ks at hc
    cases hc with
    | _ => cases hdone
  | env hk henv =>
    cases env_cases henv with
    | finish => exact hs.control _ hk (by decide)
    | write | malloc | skipHandler =>
      rw [hk] at hdone
      cases hdone
    | _ => cases hdone
  | _ => cases hdone

end SnippetsLlvm.Ir
