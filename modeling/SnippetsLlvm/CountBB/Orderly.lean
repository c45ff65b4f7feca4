import SnippetsLlvm.CountBB.Abandoned

/-!
# Programs whose report is right

What can make a report of `count-bb` wrong is known: a frame that `exit()` or an exception abandons in the middle
of its block, a second entry of `main`, a block entered after the handler started, a number too large for `%d`.
A run with none of them is orderly as far as the report goes; an exception that the call it reaches first catches,
and an `exit()` from which no frame waits, leave it so.

* `Orderly` — the runs without the first three;
* `step_handlerOnly`, `quiet_after` — after the handler started, only it runs, and no block is entered;
* `reportRight_of_orderly` — **the report of an orderly run is right**.
-/

namespace SnippetsLlvm.CountBB

open SnippetsLlvm.Ir SnippetsLlvm.Library

section Events

variable {D : DataOps}

/-- Whether the environment starts a function: one registered to run at exit, or one of the program it calls. -/
def startsFunction : Event D → Bool
  | .handler _ => true
  | .act _ (.callback _ _) => true
  | _ => false

/-- In a run from the start to `s`, `main` is entered once, no frame is abandoned, and after a start of the function
`h` the environment starts no other. -/
structure Orderly (M : Module) (main : Function) (h : ℕ) (imports : ℕ → Option D.Content) (es : List (Event D))
    (s : State D) : Prop where
  once : es.countP (entersMain M main) = 1
  stays : CostedRun M.step (abandoned M h) (M.initState imports) es s 0
  last : es.Pairwise fun e e' => startsHandler h e = true → startsFunction e' = false

/-- Of the program only the function `h` runs or waits, and `main` is not to be called any more. -/
structure HandlerOnly (h : ℕ) (s : State D) : Prop where
  control : ∀ fr, s.control = .exec fr → fr.fn = h
  started : s.control ≠ .env .crt
  conts : ∀ k ∈ s.conts, k ≠ .env .crt ∧ ∀ fr site, k = .frame fr site → fr.fn = h

theorem env_ne_crt {k : EnvKind} (hk : k ≠ .crt) : (.env k : Control D) ≠ .env .crt := by
  rwa [Ne, Control.env.injEq]

/-- Where only the function `h` runs, no other block is entered. -/
theorem HandlerOnly.entersBlock {M : Module} {h : ℕ} {s s' : State D} {a : Act D} {e : Event D}
    (hs : HandlerOnly h s) (hstep : M.step s a = some (e, s')) : entersBlock M h e = false := by
  cases e with
  | exec g b is vs =>
    obtain ⟨fr, hc, hfn, -⟩ := (exec_cases hstep).mem_todo
    have hg : g = h := by
      rw [← hfn]
      exact hs.control fr hc
    simp [CountBB.entersBlock, hg]
  | _ => rfl

/-- A step made where nothing of the program is left, and that starts no function, leaves nothing. -/
theorem HandlerOnly.step {M : Module} {h : ℕ} {s s' : State D} {a : Act D} {e : Event D}
    (hs : HandlerOnly h s) (hfn : ∀ fr, s.control ≠ .exec fr)
    (hstep : M.step s a = some (e, s')) (hks : ∀ fr site, .frame fr site ∉ s.conts)
    (he : startsFunction e = false) : HandlerOnly h s' := by
  have htail : ∀ k ks, s.conts = k :: ks → ∀ j ∈ ks, j ≠ .env .crt ∧ ∀ fr site, j = .frame fr site → fr.fn = h := by
    intro k ks hconts j hj
    exact hs.conts j (by rw [hconts]; exact List.mem_cons_of_mem _ hj)
  cases step_cases hstep with
  | unwind _ hr =>
    have hc := unwind_cases hr
    generalize hconts : s.conts = ks at hc
    cases hc with
    | @caught fr site => exact absurd (by rw [hconts]; exact List.mem_cons_self) (hks fr site)
    | @passed fr site => exact absurd (by rw [hconts]; exact List.mem_cons_self) (hks fr site)
    | ext => exact ⟨fun fr h => (nomatch h), env_ne_crt (by decide), htail _ _ hconts⟩
    | terminate => exact ⟨fun fr h => (nomatch h), fun h => (nomatch h), fun k hk => (nomatch hk)⟩
  | env hk henv =>
    cases env_cases henv with
    | @ret fr site rest v fr' hconts => exact absurd (by rw [hconts]; exact List.mem_cons_self) (hks fr site)
    | throw => exact ⟨fun fr h => (nomatch h), fun h => (nomatch h), hs.conts⟩
    | runMain => exact absurd hk hs.started
    | callback | runHandler | skipHandler => cases he
    | write | malloc => exact ⟨hs.control, hs.started, hs.conts⟩
    | exit => exact ⟨fun fr h => (nomatch h), env_ne_crt (by decide), fun k hk => (nomatch hk)⟩
    | finish => exact ⟨fun fr h => (nomatch h), fun h => (nomatch h), hs.conts⟩
    | abort => exact ⟨fun fr h => (nomatch h), fun h => (nomatch h), hs.conts⟩
  | phis hc | value hc | alloca hc | memory hc | register hc | callOut hc | callIn hc | ret hc | goto hc
  | raise hc => exact absurd hc (hfn _)

end Events

namespace Ready

variable {M : Module} {main : Function} (hM : Ready M main) (hX : External M) {D : DataSem}
include hM hX

/-- **After the handler started only it runs**, unless the environment starts a function. -/
theorem step_handlerOnly {T : ℕ} {s s' : State D.toDataOps} {a : Act D.toDataOps} {e : Event D.toDataOps}
    (hs : Tracked M main T s) (hq : HandlerOnly (handlerId M) s) (he : Allowed M e)
    (hquiet : startsFunction e = false) (hstep : (instrumented M main (counter M)).step s a = some (e, s')) :
    HandlerOnly (handlerId M) s' := by
  cases hM.move_cases hX hs he hstep with
  | program _ _ _ _ _ hks hfn =>
    refine hq.step (fun fr hc => hfn fr hc (hq.control fr hc)) hstep ?_ hquiet
    intro fr site hmem
    exact (hks fr site hmem).1 ((hq.conts _ hmem).2 fr site rfl)
  | register hc hfn => exact absurd (hfn.symm.trans (hq.control _ hc)) hM.main_ne_handler
  | count hc hfn => exact absurd (hq.control _ hc) hfn
  | report => cases hquiet
  | load hc =>
    refine ⟨?_, fun h => (nomatch h), hq.conts⟩
    intro fr hfr
    cases hfr
    rfl
  | @print fr ks fmt hc hfn ht hconts =>
    refine ⟨fun fr h => (nomatch h), env_ne_crt (by decide), ?_⟩
    · intro k hk
      rcases List.mem_cons.mp hk with rfl | hk
      · refine ⟨fun h => (nomatch h), ?_⟩
        intro fr' site heq
        cases heq
        exact hfn
      · exact hq.conts k hk
  | @printed fr ks v hc hconts hfn =>
    refine ⟨?_, fun h => (nomatch h), ?_⟩
    · intro fr' hfr
      cases hfr
      exact hfn
    · intro k hk
      exact hq.conts k (by rw [hconts]; exact List.mem_cons_of_mem _ hk)
  | @done fr ks hc hfn ht hconts =>
    refine ⟨fun fr h => (nomatch h), env_ne_crt (by decide), ?_⟩
    · intro k hk
      exact hq.conts k (by rw [hconts]; exact List.mem_cons_of_mem _ hk)

/-- **After the handler started no block is entered**, unless the environment starts a function. -/
theorem quiet_after {T : ℕ} {s s' : State D.toDataOps} {es : List (Event D.toDataOps)}
    (hs : Tracked M main T s) (hq : HandlerOnly (handlerId M) s)
    (hrun : Run (instrumented M main (counter M)).step s es s') (hes : ∀ e ∈ es, Allowed M e)
    (hquiet : ∀ e ∈ es, startsFunction e = false) :
    blocksEntered (instrumented M main (counter M)) (handlerId M) es = 0 := by
  have hinv : Tracked M main (T + terminatorsBegun (handlerId M) es) s' ∧ HandlerOnly (handlerId M) s' ∧
      blocksEntered (instrumented M main (counter M)) (handlerId M) es = 0 := by
    refine Run.traceInvariant (fun es s => Tracked M main (T + terminatorsBegun (handlerId M) es) s ∧
      HandlerOnly (handlerId M) s ∧ blocksEntered (instrumented M main (counter M)) (handlerId M) es = 0)
      (fun e => Allowed M e ∧ startsFunction e = false) ?_ hrun (fun e he => ⟨hes e he, hquiet e he⟩)
      ⟨hs, hq, rfl⟩
    intro es s a e t ⟨htracked, honly, hzero⟩ ⟨he, hstarts⟩ hstep
    refine ⟨?_, hM.step_handlerOnly hX htracked honly he hstarts hstep, ?_⟩
    · rw [terminatorsBegun_snoc, ← Nat.add_assoc]
      exact hM.step_tracked hX htracked he hstep
    · rw [blocksEntered_snoc, hzero, honly.entersBlock hstep]
      rfl
  exact hinv.2.2

/-- The start of the handler leaves only it. -/
theorem handlerOnly_of_starts {T : ℕ} {s s' : State D.toDataOps} {a : Act D.toDataOps} {e : Event D.toDataOps}
    (hs : Tracked M main T s) (hg : Grounded s) (he : Allowed M e)
    (hstart : startsHandler (handlerId M) e = true)
    (hstep : (instrumented M main (counter M)).step s a = some (e, s')) : HandlerOnly (handlerId M) s' := by
  cases hM.move_cases hX hs he hstep with
  | program _ _ _ _ hshown =>
    cases e with
    | handler g => exact absurd (eq_of_beq hstart) hshown
    | _ => cases hstart
  | report hc =>
    refine ⟨?_, fun h => (nomatch h), ?_⟩
    · intro fr hfr
      cases hfr
      rfl
    · intro k hk
      rw [hg.control _ hc (by decide), List.mem_singleton] at hk
      subst hk
      exact ⟨by simp, fun fr site h => (nomatch h)⟩
  | _ => cases hstart

/-- The report of an orderly run, when it fits what `%d` can show. -/
theorem reportRight_orderly {imports : ℕ → Option D.Content} {es : List (Event D.toDataOps)}
    {s : State D.toDataOps} (hs : Reached M (instrumented M main (counter M)) imports es s)
    (hend : s.control = .done true)
    (horderly : Orderly (instrumented M main (counter M)) main (handlerId M) imports es s)
    (hfits : blocksEntered (instrumented M main (counter M)) (handlerId M) es < 2 ^ 31) :
    ReportRight (instrumented M main (counter M)) (handlerId M) es := by
  refine (hM.reportRight_frames hX hs hend).mpr ⟨horderly.once, fun _ => ⟨hfits, ?_⟩⟩
  rintro pre e post rfl hstart
  have hstays := horderly.stays
  rw [List.append_cons] at hstays
  obtain ⟨u, m, k, hstarted, hafter, hcost⟩ := hstays.append_inv
  obtain ⟨t, n, a, hbefore, hstep, rfl⟩ := hstarted.snoc_inv
  obtain rfl : n = 0 := by omega
  refine ⟨⟨t, hbefore⟩, ?_⟩
  have hreached : Reached M (instrumented M main (counter M)) imports pre t :=
    ⟨hs.outside, hbefore.run, fun e' he' => hs.allowed e' (List.mem_append_left _ he')⟩
  have htracked := hM.reached_tracked hX hreached
  have hallowed := hs.allowed e (List.mem_append_right _ List.mem_cons_self)
  refine hM.quiet_after hX (hM.step_tracked hX htracked hallowed hstep)
    (hM.handlerOnly_of_starts hX htracked (run_grounded hbefore.run) hallowed hstart hstep) hafter.run ?_ ?_
  · intro e' he'
    exact hs.allowed e' (List.mem_append_right _ (List.mem_cons_of_mem _ he'))
  · have hlast := horderly.last
    rw [List.pairwise_append, List.pairwise_cons] at hlast
    exact fun e' he' => hlast.2.1.1 e' he' hstart

end Ready

/-- **The report of an orderly run is right**, when it fits what `%d` can show. -/
theorem reportRight_of_orderly {M M' : Module} {main H : Function} {D : DataSem}
    {imports : ℕ → Option D.Content} {es : List (Event D.toDataOps)} {s : State D.toDataOps}
    (hM : Ready M main) (hX : External M) (hM' : runOnModule M = .ok M')
    (hH : M'.getFunction atexitCallStr = some H) (hs : Reached M M' imports es s)
    (hend : s.control = .done true) (horderly : Orderly M' main H.id imports es s)
    (hfits : blocksEntered M' H.id es < 2 ^ 31) : ReportRight M' H.id es := by
  obtain ⟨rfl, hid⟩ := hM.result_eq hM' hH
  rw [hid] at horderly hfits ⊢
  exact hM.reportRight_orderly hX hs hend horderly hfits

/-- The run of `catchModule` in which `main` catches what `f` throws is orderly. -/
theorem orderly_catchModule : ∃ es s,
    Reached (D := wordSem) catchModule (instrumented catchModule catchMain (counter catchModule))
      (fun _ => none) es s ∧ s.control = .done true ∧
    blocksEntered (instrumented catchModule catchMain (counter catchModule)) (handlerId catchModule) es = 3 ∧
    Orderly (instrumented catchModule catchMain (counter catchModule)) catchMain (handlerId catchModule)
      (fun _ => none) es s := by
  obtain ⟨es, s, hr, hreached, hdone, -, hentered, hbegun⟩ := exists_caught
  have hshows : (instrumentedRun catchModule catchMain caughtActs).map (fun r =>
      (r.1.countP (entersMain (instrumented catchModule catchMain (counter catchModule)) catchMain),
        decide (r.1.Pairwise fun e e' =>
          startsHandler (handlerId catchModule) e = true → startsFunction e' = false))) = some (1, true) := by rfl
  rw [hr, Option.map_some, Option.some.injEq, Prod.mk.injEq, decide_eq_true_eq] at hshows
  refine ⟨es, s, hreached, hdone, hentered, hshows.1, ?_, hshows.2⟩
  refine (costed_zero_iff ready_catchModule.distinct_instrumented ready_catchModule.terminatorsLast_instrumented
    hreached.run hdone).mpr ?_
  rw [hentered, hbegun]

theorem reportRight_of_orderly_catch : ∃ M' H, runOnModule catchModule = .ok M' ∧
    M'.getFunction atexitCallStr = some H ∧
    ∃ es s, Reached (D := wordSem) catchModule M' (fun _ => none) es s ∧ s.control = .done true ∧
      blocksEntered M' H.id es = 3 ∧ ReportRight M' H.id es := by
  have hX : External catchModule := External.of_absent rfl rfl
  have hid : (handlerFn catchModule catchMain).id = handlerId catchModule :=
    ready_catchModule.handlerDecl_id
  obtain ⟨es, s, hreached, hdone, hentered, horderly⟩ := orderly_catchModule
  rw [← hid] at hentered horderly
  refine ⟨_, _, ready_catchModule.runOnModule, ready_catchModule.getFunction_instrumented, es, s, hreached,
    hdone, hentered, ?_⟩
  refine reportRight_of_orderly ready_catchModule hX ready_catchModule.runOnModule
    ready_catchModule.getFunction_instrumented hreached hdone horderly ?_
  rw [hentered]
  decide

end SnippetsLlvm.CountBB
