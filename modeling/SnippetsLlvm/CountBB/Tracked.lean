import SnippetsLlvm.CountBB.Moves
import SnippetsLlvm.CountBB.OneCounter

/-!
# Tracking an instrumented program

Every step of an instrumented program is a move, and a move leads from a tracked state to a tracked one.

* `move_cases` — **every allowed step of a tracked state is a move**;
* `step_tracked` — and leads to a tracked state;
* `tracked_init` — before anything ran, a state is tracked;
* `run_tracked` — the states of a run are tracked;
* `Reached` — a run of an instrumented program in its environment.
-/

namespace SnippetsLlvm.CountBB

open SnippetsLlvm.Ir SnippetsLlvm.Library

namespace Ready

variable {M : Module} {main : Function} (hM : Ready M main) {D : DataSem}
include hM

/-! ### Every step is a move -/

/-- When the next instruction is kept, so are those executed in one step with it. -/
theorem shown_of_kept {s s' : State D.toDataOps} {a : Act D.toDataOps} {e : Event D.toDataOps}
    {fr : Frame D.toDataOps} (hpos : Positioned (instrumented M main (counter M)) s)
    (hc : s.control = .exec fr) (hfn : fr.fn ≠ handlerId M)
    (hkeep : ∀ I rest, fr.todo = I :: rest → (added M).keeps fr.fn I.id = true)
    (h : (instrumented M main (counter M)).step s a = some (e, s')) : Shown M e := by
  have hevent : ∃ g b is vs, e = .exec g b is vs := by
    obtain ⟨is, vs, rfl⟩ := exec_event hc h
    exact ⟨_, _, is, vs, rfl⟩
  obtain ⟨g, b, is, vs, rfl⟩ := hevent
  obtain ⟨B, hB, hmem⟩ := exec_mem hpos h
  cases exec_cases h with
  | phis hc' =>
    rw [hc, Control.exec.injEq] at hc'
    subst hc'
    have hold := hM.old_of_block? hfn hB
    have hread := hM.erases_instrumented.blocks fr.fn fr.block B (hidesFn_iff.mpr hold) hB
    refine ⟨hfn, ?_⟩
    intro I hI
    exact hread.phisKept I (hmem I hI) (List.all_eq_true.mp List.all_takeWhile I hI)
  | inst hc' ht =>
    rw [hc, Control.exec.injEq] at hc'
    subst hc'
    refine ⟨hfn, ?_⟩
    intro I hI
    rw [List.mem_singleton.mp hI]
    exact hkeep _ _ ht

omit hM in
/-- What the environment does outside the handler is shown. -/
theorem shown_env {s : State D.toDataOps} {a : Act D.toDataOps} (hks : ProgramStack M s.conts)
    (ha : a = .runHandler → s.handlers.headD 0 ≠ handlerId M) : Shown M (envEvent s a) := by
  have hcaller : callerOf s.conts ≠ some (handlerId M) := by
    intro hcaller
    cases hconts : s.conts with
    | nil =>
      rw [hconts] at hcaller
      cases hcaller
    | cons k ks =>
      rw [hconts] at hcaller hks
      cases k with
      | frame fr site => exact (hks fr site List.mem_cons_self).1 (Option.some.inj hcaller)
      | env k => cases hcaller
  cases a with
  | runHandler => exact ha rfl
  | _ => exact hcaller

variable (hX : External M)
include hX

/-- **Every allowed step of a tracked state is a move.** -/
theorem move_cases {T : ℕ} {s s' : State D.toDataOps} {a : Act D.toDataOps} {e : Event D.toDataOps}
    (hs : Tracked M main T s) (he : Allowed M e)
    (h : (instrumented M main (counter M)).step s a = some (e, s')) : Move M main T s a e s' := by
  have hpos := hs.counter.positioned
  -- the step is determined
  have hmove : ∀ {a' e' t}, a' = a → (instrumented M main (counter M)).step s a' = some (e', t) →
      Move M main T s a' e' t → Move M main T s a e s' := by
    intro a' e' t ha hstep hmove
    subst ha
    rw [h, Option.some.injEq, Prod.mk.injEq] at hstep
    obtain ⟨rfl, rfl⟩ := hstep
    exact hmove
  cases hs.shape with
  | program hks hfn =>
    cases hc : s.control with
    | exec fr =>
      obtain rfl := tick_of_exec hc h
      by_cases hkeep : ∀ I rest, fr.todo = I :: rest → (added M).keeps fr.fn I.id = true
      · have hfront : ∀ fr' I rest, s.control = .exec fr' → fr'.todo = I :: rest →
            (added M).keeps fr'.fn I.id = true := by
          intro fr' I rest hfr'
          rw [hc, Control.exec.injEq] at hfr'
          subst hfr'
          exact hkeep I rest
        refine .program (hM.erasable hpos hs.clean hks hfn hfront) trivial ?_ h
          (hM.shown_of_kept hpos hc (hfn fr hc) hkeep h) hks hfn
        intro hexit
        rw [hc] at hexit
        cases hexit
      · simp only [not_forall, Bool.not_eq_true] at hkeep
        obtain ⟨I, rest, ht, hdrop⟩ := hkeep
        obtain ⟨e', t, hstep, hm⟩ := hM.inserted_step hX hs.counter hks hc (hfn fr hc) ht hdrop
        exact hmove rfl hstep hm
    | raise exn =>
      have hfront : ∀ fr I rest, s.control = .exec fr → fr.todo = I :: rest →
          (added M).keeps fr.fn I.id = true := by
        intro fr I rest hfr
        rw [hc] at hfr
        cases hfr
      cases a with
      | tick =>
        have hshown : Shown M e := by
          simp only [Module.step, hc] at h
          obtain ⟨r, -, h⟩ := Option.map_eq_some_iff.mp h
          cases h
          trivial
        refine .program (hM.erasable hpos hs.clean hks hfn hfront) trivial ?_ h hshown hks hfn
        intro hexit
        rw [hc] at hexit
        cases hexit
      | _ =>
        simp only [Module.step, hc] at h
        cases h
    | env k =>
      have hfront : ∀ fr I rest, s.control = .exec fr → fr.todo = I :: rest →
          (added M).keeps fr.fn I.id = true := by
        intro fr I rest hfr
        rw [hc] at hfr
        cases hfr
      by_cases hreport : a = .runHandler ∧ k = .exiting ∧ s.handlers.headD 0 = handlerId M ∧ s.handlers ≠ []
      · obtain ⟨rfl, rfl, hhead, hne⟩ := hreport
        obtain ⟨g, hs', hhs⟩ := List.exists_cons_of_ne_nil hne
        rw [hhs, List.headD_cons] at hhead
        subst hhead
        exact hmove rfl (hM.step_runHandler hc hhs) (.report hc hhs hks)
      · have hstep := h
        simp only [Module.step, hc] at hstep
        obtain ⟨t, henv, ht⟩ := Option.map_eq_some_iff.mp hstep
        cases ht
        have hout : Outside (added M).Secret a := by
          cases a with
          | runHandler => trivial
          | _ => exact he.1
        -- the registration at the head is not the handler
        have hhead : ∀ g rest, a = .runHandler → k = .exiting → s.handlers = g :: rest → g ≠ handlerId M := by
          intro g rest ha hk hhs hg
          refine hreport ⟨ha, hk, ?_, ?_⟩
          · rw [hhs, List.headD_cons, hg]
          · rw [hhs]
            exact List.cons_ne_nil g rest
        have hnext : s.control = .env .exiting → a.looksAtHandlers = true → (added M).NextShown s := by
          intro hexit hlook g rest hhs
          rw [hc, Control.env.injEq] at hexit
          by_contra hg
          have hsecret : (added M).Secret g := by simpa [Erasure.Secret] using hg
          have hhandler := hs.handlers g (by rw [hhs]; exact List.mem_cons_self) hsecret
          cases a with
          | runHandler => exact hhead g rest rfl hexit hhs hhandler
          | finish =>
            rw [hexit] at henv
            simp only [Module.envStep, hhs] at henv
            cases henv
          | _ => cases hlook
        have hshown : Shown M (envEvent s a) := by
          refine shown_env hks ?_
          rintro rfl
          cases env_cases henv with
          | skipHandler hhs =>
            rw [hhs, List.headD_cons]
            exact hhead _ _ rfl rfl hhs
          | runHandler hhs =>
            rw [hhs, List.headD_cons]
            exact hhead _ _ rfl rfl hhs
        exact .program (hM.erasable hpos hs.clean hks hfn hfront) hout hnext h hshown hks hfn
    | done normal =>
      simp only [Module.step, hc] at h
      cases a <;> cases h
  | loading hc hconts hks =>
    obtain rfl := tick_of_exec hc h
    obtain ⟨c, hcell, hx⟩ := cell_of_handler hs.counter hc rfl
    refine hmove rfl (step_load hc rfl hcell hx) (.load hc hconts hks ?_)
    intro o ho
    refine if_neg fun heq => ho ?_
    rw [heq]
    show (added M).Secret _
    rw [secret_iff, hM.counter_eq]
  | calling hc hfn ht hl hconts hks =>
    obtain rfl := tick_of_exec hc h
    obtain ⟨fmt, hstep⟩ := hM.step_handlerCall hX hc ht hl
    have hprint : Move M main T s .tick (.exec (handlerId M) _ [printCall M main]
        [fmt, .int 64 (BitVec.ofNat 64 T), .ptr (.global (printfId M main)) 0]) _ :=
      .print hc hfn ht hconts hks
    rw [← hfn] at hprint
    exact hmove rfl hstep hprint
  | printing hc hconts hfn ht hks =>
    have hstep := h
    simp only [Module.step, hc] at hstep
    obtain ⟨t, henv, ht'⟩ := Option.map_eq_some_iff.mp hstep
    cases ht'
    have hcaller : callerOf s.conts = some (handlerId M) := by
      rw [hconts, callerOf, hfn]
    have hact : envEvent s a = .act (callerOf s.conts) a := by
      cases a with
      | runHandler => cases henv
      | _ => rfl
    rw [hact] at he
    obtain ⟨v, rfl⟩ := he.2 hcaller
    have hstep := step_printed (v := v) hc hconts
    rw [hfn] at hstep
    exact hmove rfl hstep (.printed hc hconts hfn ht hks he.1)
  | returning hc hfn ht hconts hks =>
    obtain rfl := tick_of_exec hc h
    have hdone : Move M main T s .tick (.exec (handlerId M) _ [handlerRet 0] []) _ :=
      .done hc hfn ht hconts hks
    rw [← hfn] at hdone
    exact hmove rfl (step_handlerRet hc ht hconts) hdone

/-! ### The states of a run -/

/-- **A step leads from a tracked state to a tracked one.** -/
theorem step_tracked {T : ℕ} {s s' : State D.toDataOps} {a : Act D.toDataOps} {e : Event D.toDataOps}
    (hs : Tracked M main T s) (he : Allowed M e)
    (h : (instrumented M main (counter M)).step s a = some (e, s')) :
    Tracked M main (T + (beginsTerminator (handlerId M) e).toNat) s' := by
  have hcounter := hM.step_counter hs.counter (hM.undisturbed hs.clean he h) h
  -- the running frame, moved past its first instruction
  have hfrClean : ∀ {fr : Frame D.toDataOps}, s.control = .exec fr → ∀ rest,
      ({ fr with todo := rest } : Frame D.toDataOps).Clean (added M).Secret := by
    intro fr hc rest
    have hcl := hs.clean.control
    rw [hc] at hcl
    exact ⟨hcl.locals, hcl.args, hcl.pad⟩
  have hmem : ∀ {m : Obj → Option D.Content}, (∀ o, ¬ Hidden (added M).Secret o → m o = s.mem o) →
      ∀ o c, ¬ Hidden (added M).Secret o → m o = some c → ContentAvoids (added M).Secret c := by
    intro m hm o c ho hc
    rw [hm o ho] at hc
    exact hs.clean.mem o c ho hc
  have hconts : ∀ {ks : List (Cont D.toDataOps)}, s.conts = .env .exiting :: ks →
      ∀ k ∈ ks, k.Clean (added M).Secret := by
    intro ks hks k hk
    refine hs.clean.conts k ?_
    rw [hks]
    exact List.mem_cons_of_mem _ hk
  have hexiting : ∀ {ks : List (Cont D.toDataOps)}, (∀ k ∈ ks, k.Clean (added M).Secret) →
      ∀ k ∈ Cont.env .exiting :: ks, k.Clean (added M).Secret := by
    intro ks hks k hk
    rcases List.mem_cons.mp hk with rfl | hk
    · trivial
    · exact hks k hk
  cases hM.move_cases hX hs he h with
  | program herase hout hnext hstep hshown hks hfn =>
    have hclean := hM.cleanEvent_shown hs.counter.positioned he hshown h
    have hal := hM.erases_instrumented.aliasees
    refine ⟨hcounter, step_clean hal hs.clean hclean h, ?_, ?_⟩
    · intro g hg hsecret
      rcases step_handlers hal hs.clean hclean h g hg with hg | hg
      · exact hs.handlers g hg hsecret
      · exact absurd hsecret hg
    · obtain ⟨hks', hfn'⟩ := hM.step_program hs.clean hks hfn hclean hshown h
      exact .program hks' hfn'
  | register hc hmain hfront hks ht =>
    refine ⟨hcounter, ⟨(hfrClean hc _).set _ (avoids_int _), hs.clean.conts, hs.clean.mem⟩, ?_, ?_⟩
    · intro g hg hsecret
      rcases List.mem_cons.mp hg with rfl | hg
      · rfl
      · exact hs.handlers g hg hsecret
    · refine .program hks fun fr' hfr' => ?_
      cases hfr'
      rw [Frame.set_fn]
      rw [hmain]
      exact hM.main_ne_handler
  | count hc hfn hks hI ht hdrop hv hm =>
    refine ⟨hcounter, ⟨(hfrClean hc _).set _ hv, hs.clean.conts, hmem hm⟩, hs.handlers, ?_⟩
    refine .program hks fun fr' hfr' => ?_
    cases hfr'
    exact hfn
  | report hc hhs hks =>
    have hframe : (handlerFrame M main D).Clean (added M).Secret :=
      ⟨fun _ _ h => (nomatch h), fun _ h => (nomatch h), fun _ h => (nomatch h)⟩
    refine ⟨hcounter, ⟨hframe, hexiting hs.clean.conts, hs.clean.mem⟩, ?_, .loading rfl rfl hks⟩
    intro g hg
    refine hs.handlers g ?_
    rw [hhs]
    exact List.mem_cons_of_mem _ hg
  | load hc hks hstack hm =>
    rw [beginsTerminator_self] at hcounter ⊢
    refine ⟨hcounter, ⟨(hfrClean hc _).set _ (avoids_int _), hs.clean.conts, hmem hm⟩, hs.handlers, ?_⟩
    exact .calling rfl rfl rfl rfl hks hstack
  | @print fr ks fmt hc hfn ht hks hstack =>
    refine ⟨hcounter, ⟨trivial, ?_, hs.clean.mem⟩, hs.handlers, ?_⟩
    · intro k hk
      rcases List.mem_cons.mp hk with rfl | hk
      · exact hfrClean hc _
      · exact hs.clean.conts k hk
    · have hwait : Cont.frame { fr with todo := [handlerRet 0] } (printCall M main) :: s.conts =
          .frame { fr with todo := [handlerRet 0] } (printCall M main) :: .env .exiting :: ks := by
        rw [hks]
      exact .printing rfl hwait hfn rfl hstack
  | @printed fr ks v hc hks hfn ht hstack hv =>
    have hclean := hs.clean.conts
    rw [hks] at hclean
    have hfr : fr.Clean (added M).Secret := hclean _ List.mem_cons_self
    refine ⟨hcounter, ⟨hfr.set 1 hv, fun k hk => hclean k (List.mem_cons_of_mem _ hk), hs.clean.mem⟩,
      hs.handlers, ?_⟩
    exact .returning rfl hfn ht rfl hstack
  | done hc hfn ht hks hstack =>
    refine ⟨hcounter, ⟨trivial, hconts hks, hs.clean.mem⟩, hs.handlers, ?_⟩
    refine .program hstack fun fr' hfr' => ?_
    cases hfr'

omit hX in
/-- The globals the pass adds have new identities. -/
theorem mem_globals_of_notSecret {G : GlobalVariable} (hG : G ∈ (instrumented M main (counter M)).globals)
    (hid : ¬ (added M).Secret G.id) : G ∈ M.globals := by
  obtain ⟨fmt, hfmt, hglobals⟩ := instrumented_globals M main (counter M)
  rw [hglobals] at hG
  rw [secret_iff] at hid
  rcases List.mem_append.mp hG with hG | hG
  · exact hG
  · simp only [List.mem_cons, List.not_mem_nil, or_false] at hG
    rcases hG with rfl | rfl
    · rw [hM.counter_eq] at hid
      exact absurd (Nat.le_refl _) hid
    · have hle := le_withPrintf_nextGlobal M main
      omega

omit hX in
/-- **Before anything ran, a state is tracked.** -/
theorem tracked_init {imports : ℕ → Option D.Content}
    (himports : ∀ g c, imports g = some c → ContentAvoids (added M).Secret c) :
    Tracked M main 0 ((instrumented M main (counter M)).initState imports) where
  counter := hM.counterInv_init imports
  clean := by
    refine initState_clean (fun G hG c hc g hg hid => ?_) himports
    have hold := hM.mem_globals_of_notSecret hG hid
    by_contra hm
    obtain ⟨V, hV, rfl⟩ := (hM.wf.initializers G hold c hc).2 g (by simpa using hm)
    have hlt := hM.wf.idBound V hV
    have hle := secret_iff.mp hg
    omega
  handlers g hg := by cases hg
  shape := .program (fun _ _ h => (nomatch h)) fun _ h => (nomatch h)

/-- **The states of a run are tracked.** -/
theorem run_tracked {imports : ℕ → Option D.Content} {es : List (Event D.toDataOps)}
    {s : State D.toDataOps} (himports : ∀ g c, imports g = some c → ContentAvoids (added M).Secret c)
    (hrun : Run (instrumented M main (counter M)).step
      ((instrumented M main (counter M)).initState imports) es s)
    (hes : ∀ e ∈ es, Allowed M e) : Tracked M main (terminatorsBegun (handlerId M) es) s := by
  refine Run.traceInvariant (fun es s => Tracked M main (terminatorsBegun (handlerId M) es) s)
    (Allowed M) (fun es s a e s' hs he h => ?_) hrun hes (hM.tracked_init himports)
  rw [terminatorsBegun_snoc]
  exact hM.step_tracked hX hs he h

end Ready

/-! ### The runs of an instrumented program -/

/-- A run of the instrumented program from its start, in an environment that does not know the new
addresses. -/
structure Reached (M M' : Module) {D : DataSem} (imports : ℕ → Option D.Content)
    (es : List (Event D.toDataOps)) (s : State D.toDataOps) : Prop where
  outside : ∀ g c, imports g = some c → ContentAvoids (added M).Secret c
  run : Run M'.step (M'.initState imports) es s
  allowed : ∀ e ∈ es, Allowed M e

/-- A run leads from a state of a run to a state of a run. -/
theorem Reached.append {M M' : Module} {D : DataSem} {imports : ℕ → Option D.Content}
    {es es' : List (Event D.toDataOps)} {s s' : State D.toDataOps} (hs : Reached M M' imports es s)
    (hrun : Run M'.step s es' s') (hes' : ∀ e ∈ es', Allowed M e) :
    Reached M M' imports (es ++ es') s' := by
  refine ⟨hs.outside, hs.run.trans hrun, ?_⟩
  intro e he
  rcases List.mem_append.mp he with he | he
  · exact hs.allowed e he
  · exact hes' e he

/-- A run of an instrumented program reaches a tracked state. -/
theorem Ready.reached_tracked {M : Module} {main : Function} (hM : Ready M main) (hX : External M)
    {D : DataSem} {imports : ℕ → Option D.Content} {es : List (Event D.toDataOps)}
    {s : State D.toDataOps} (hs : Reached M (instrumented M main (counter M)) imports es s) :
    Tracked M main (terminatorsBegun (handlerId M) es) s :=
  hM.run_tracked hX hs.outside hs.run hs.allowed

/-- The run of an instrumented module along a list of actions. -/
def instrumentedRun (M : Module) (main : Function) (as : List (Act wordSem.toDataOps)) :
    Option (List (Event wordSem.toDataOps) × State wordSem.toDataOps) :=
  follow (instrumented M main (counter M)).step
    ((instrumented M main (counter M)).initState fun _ => none) as

/-- What is returned or thrown is a number, and what is called back a function of the program without arguments. -/
def isPlain {D : DataOps} (M : Module) : Act D → Bool
  | .ret (.int _ _) | .throw (.int _ _) => true
  | .callback g [] => decide (g < M.nextGlobal)
  | .tick | .exit | .runMain [] | .runHandler | .finish | .abort => true
  | _ => false

/-- The environment does something plain, and while `printf` runs for the handler it returns. -/
def harmless {D : DataOps} (M : Module) : Event D → Bool
  | .act caller a => isPlain M a && (decide (caller ≠ some (handlerId M)) || match a with
    | .ret _ => true
    | _ => false)
  | _ => true

theorem outside_of_isPlain {D : DataSem} {M : Module} {a : Act D.toDataOps} (h : isPlain M a = true) :
    Outside (added M).Secret a := by
  have hnone : ∀ v ∈ ([] : List (Val D.Data)), v.Avoids (added M).Secret := by
    intro v hv
    cases hv
  cases a with
  | ret v =>
    cases v with
    | int w x => exact avoids_int _
    | _ => cases h
  | callback g args =>
    cases args with
    | nil =>
      refine ⟨?_, hnone⟩
      rw [secret_iff]
      exact Nat.not_le.mpr (of_decide_eq_true h)
    | cons v vs => cases h
  | runMain args =>
    cases args with
    | nil => exact hnone
    | cons v vs => cases h
  | throw exn =>
    cases exn with
    | int w x => exact avoids_int _
    | _ => cases h
  | write eff => cases h
  | malloc c => cases h
  | _ => trivial

theorem allowed_of_harmless {D : DataSem} {M : Module} {e : Event D.toDataOps}
    (h : harmless M e = true) : Allowed M e := by
  cases e with
  | act caller a =>
    obtain ⟨hplain, hret⟩ := (Bool.and_eq_true _ _).mp h
    refine ⟨outside_of_isPlain hplain, fun hcaller => ?_⟩
    rw [hcaller, decide_eq_false (not_not_intro rfl), Bool.false_or] at hret
    cases a with
    | ret v => exact ⟨v, rfl⟩
    | _ => cases hret
  | _ => trivial

/-- A run along harmless actions is one of an instrumented program in its environment. -/
theorem reached_of_instrumentedRun {M : Module} {main : Function} {as : List (Act wordSem.toDataOps)}
    {es : List (Event wordSem.toDataOps)} {s : State wordSem.toDataOps}
    (h : instrumentedRun M main as = some (es, s)) (hes : es.all (harmless M) = true) :
    Reached M (instrumented M main (counter M)) (fun _ => none) es s where
  outside _ _ h := by cases h
  run := Run.of_follow h
  allowed e he := allowed_of_harmless (List.all_eq_true.mp hes e he)

end SnippetsLlvm.CountBB
