import SnippetsLlvm.CountBB.Orderly
import SnippetsLlvm.CountBB.Preserves

/-!
# The blocks of the original program

What the report counts are blocks of the instrumented program, with the registration and the counting code
in them.  The run of the original program that an instrumented run is read as enters the same blocks: the two
begin the same terminators, and they abandon the same frames.

* `openedFrame_waits` — a waiting frame is open unless it waits at a terminator, whatever was inserted;
* `costed_original` — the original run abandons what the instrumented run does;
* `blocksEntered_original` — **at normal termination both have entered the same number of blocks, and abandoned the
  same number of frames**;
* `printedNumber_original` — **the report of an orderly run is the number of blocks the original program
  enters**.
-/

namespace SnippetsLlvm.CountBB

open SnippetsLlvm.Ir SnippetsLlvm.Library

/-! ### Blocks that end in their terminators -/

/-- In a list with one terminator, at its end, nothing follows it. -/
theorem eq_nil_of_terminator {body pre post : List Instruction} {t I : Instruction}
    (hbody : ∀ J ∈ body, J.isTerminator = false) (hsplit : body ++ [t] = pre ++ I :: post)
    (hI : I.isTerminator = true) : post = [] := by
  rcases List.eq_nil_or_concat post with hnil | ⟨post, J, rfl⟩
  · exact hnil
  · rw [List.concat_eq_append, ← List.cons_append, ← List.append_assoc] at hsplit
    have hmem : I ∈ body := by
      rw [(List.append_inj' hsplit rfl).1]
      exact List.mem_append_right _ List.mem_cons_self
    rw [hbody I hmem] at hI
    cases hI

section Source

variable {M : Module} (hM : M.WellFormed)
include hM

theorem wellFormed_of_block? {g b : ℕ} {B : BasicBlock} (hB : M.block? g b = some B) :
    ∃ F ∈ M.functions, B ∈ F.blocks ∧ B.WellFormed := by
  obtain ⟨F, hF, hB⟩ := Option.bind_eq_some_iff.mp hB
  have hmem := (Module.mem_of_function? hF).1
  have hblock := List.mem_of_find?_eq_some hB
  exact ⟨F, hmem, hblock, (hM.functions F hmem).blocks B hblock⟩

theorem terminatorsLast_of_wellFormed : TerminatorsLast M := by
  intro g b B hB pre I post hsplit hI
  obtain ⟨-, -, -, hwf⟩ := wellFormed_of_block? hM hB
  obtain ⟨body, t, hbody, -, hplain⟩ := hwf.terminator
  rw [hbody] at hsplit
  exact eq_nil_of_terminator hplain hsplit hI

theorem distinct_of_wellFormed (h : ℕ) : Distinct M h := by
  intro g b B _ hB
  obtain ⟨F, hF, hblock, hwf⟩ := wellFormed_of_block? hM hB
  obtain ⟨body, t, hbody, hterm, -⟩ := hwf.terminator
  refine ⟨⟨body, t, hbody, hterm⟩, ?_⟩
  have hnodup := nodup_of_mem_blocks (hM.functions F hF) hblock
  rw [List.Nodup, List.pairwise_map] at hnodup
  exact hnodup.imp fun hne hsame => hne hsame.1.symm

end Source

/-! ### Frames that wait -/

/-- **A waiting frame is open unless it waits at a terminator.** -/
theorem openedFrame_waits {M : Module} {h : ℕ} {D : DataOps} {fr : Frame D} {site : Instruction}
    (hM : Distinct M h) (hlast : TerminatorsLast M) (hw : fr.WaitsAt M site) :
    openedFrame M h fr = (decide (fr.fn ≠ h) && !site.isTerminator) := by
  obtain ⟨B, hB, pre, hpre⟩ := hw
  by_cases hterm : site.isTerminator = true
  · rw [openedFrame_nil (hlast _ _ B hB pre site fr.todo hpre hterm), hterm]
    simp
  · by_cases hg : fr.fn = h
    · simp [openedFrame, hg]
    · have hne : fr.todo ≠ [] := by
        intro hnil
        obtain ⟨⟨body, t, hbody, ht⟩, -⟩ := hM _ _ B hg hB
        rw [hpre, hnil] at hbody
        obtain ⟨-, heq⟩ := List.append_inj' hbody rfl
        rw [List.cons.injEq] at heq
        rw [heq.1] at hterm
        exact hterm ht
      have hlen : B.insts.length ≠ fr.todo.length := by
        rw [hpre, List.length_append, List.length_cons]
        omega
      simp [openedFrame, hB, hg, hne, hlen, hterm]

theorem Run.positioned {M : Module} {D : DataOps} {imports : ℕ → Option D.Content} {es : List (Event D)}
    {s : State D} (hrun : Run M.step (M.initState imports) es s) : Positioned M s :=
  Run.traceInvariant (fun _ s => Positioned M s) (fun _ => True)
    (fun _ _ _ _ _ hs _ hstep => step_positioned hs hstep) hrun (fun _ _ => trivial)
    (initState_positioned _ _)

/-- What runs is in a block of the module. -/
theorem Run.exec_block {M : Module} {D : DataOps} {imports : ℕ → Option D.Content} {es : List (Event D)}
    {s : State D} (hrun : Run M.step (M.initState imports) es s) {g b : ℕ} {is : List Instruction}
    {vs : List (Val D.Data)} (he : .exec g b is vs ∈ es) : ∃ B, M.block? g b = some B := by
  obtain ⟨pre, post, rfl⟩ := List.append_of_mem he
  rw [List.append_cons] at hrun
  obtain ⟨u, hbefore, -⟩ := hrun.append_inv
  obtain ⟨t, a, hpre, hstep⟩ := hbefore.snoc_inv
  obtain ⟨B, hB, -⟩ := exec_mem (Run.positioned hpre) hstep
  exact ⟨B, hB⟩

namespace Ready

variable {M : Module} {main : Function} (hM : Ready M main) {D : DataSem}
include hM

/-- A frame that waits is as open in the original program. -/
theorem openedCont_original {k : Cont D.toDataOps}
    (hnew : ∀ fr site, k = .frame fr site → fr.WaitsAt (instrumented M main (counter M)) site)
    (hold : ∀ fr site, (added M).cont k = .frame fr site → fr.WaitsAt M site) :
    openedCont M (handlerId M) ((added M).cont k) =
      openedCont (instrumented M main (counter M)) (handlerId M) k := by
  cases k with
  | env => rw [Erasure.cont, openedCont, openedCont]
  | frame fr site =>
    have hnew' := openedFrame_waits hM.distinct_instrumented hM.terminatorsLast_instrumented (hnew fr site rfl)
    have hwaits : ((added M).frame fr).WaitsAt M site := hold ((added M).frame fr) site rfl
    have hold' := openedFrame_waits (distinct_of_wellFormed hM.wf (handlerId M))
      (terminatorsLast_of_wellFormed hM.wf) hwaits
    rw [openedCont, hnew']
    exact hold'

/-- **A step of the program abandons the same frames in the original program.** -/
theorem abandoned_original {s : State D.toDataOps} (a : Act D.toDataOps)
    (hnew : Positioned (instrumented M main (counter M)) s) (hold : Positioned M ((added M).state s)) :
    abandoned M (handlerId M) ((added M).state s) a =
      abandoned (instrumented M main (counter M)) (handlerId M) s a := by
  have hcont : ∀ k ∈ s.conts, openedCont M (handlerId M) ((added M).cont k) =
      openedCont (instrumented M main (counter M)) (handlerId M) k := by
    intro k hk
    refine hM.openedCont_original ?_ ?_
    · rintro fr site rfl
      exact hnew.conts fr site hk
    · intro fr site heq
      refine hold.conts fr site ?_
      show Cont.frame fr site ∈ s.conts.map (added M).cont
      rw [← heq]
      exact List.mem_map_of_mem hk
  have hcount : (s.conts.map (added M).cont).countP (openedCont M (handlerId M)) =
      s.conts.countP (openedCont (instrumented M main (counter M)) (handlerId M)) := by
    rw [List.countP_map]
    exact List.countP_congr fun k hk => by rw [Function.comp_apply, hcont k hk]
  cases hc : s.control with
  | exec fr =>
    have hc' : ((added M).state s).control = .exec ((added M).frame fr) := by
      show (added M).control s.control = _
      rw [hc]
      rfl
    rw [abandoned_exec hc, abandoned_exec hc']
  | env k =>
    cases a with
    | exit => simpa [abandoned, Erasure.state, Erasure.control, hc] using hcount
    | _ => simp [abandoned, Erasure.state, Erasure.control, hc]
  | raise exn =>
    cases hks : s.conts with
    | nil => simp [abandoned, Erasure.state, Erasure.control, hc, hks]
    | cons k ks =>
      have hk := hcont k (by rw [hks]; exact List.mem_cons_self)
      cases a with
      | tick => simp [abandoned, Erasure.state, Erasure.control, hc, hks, hk]
      | _ => simp [abandoned, Erasure.state, Erasure.control, hc, hks]
  | done => simp [abandoned, Erasure.state, Erasure.control, hc]

omit hM in
/-- The inserted code abandons no frame. -/
theorem abandoned_inserted {T : ℕ} {s s' : State D.toDataOps} {a : Act D.toDataOps} {e : Event D.toDataOps}
    (hmove : Move M main T s a e s') (hnot : ¬ Shown M e) :
    abandoned (instrumented M main (counter M)) (handlerId M) s a = 0 := by
  cases hmove with
  | program _ _ _ _ hshown => exact absurd hshown hnot
  | report hc => simp [abandoned, hc]
  | printed hc => simp [abandoned, hc]
  | register hc | count hc | load hc | print hc | done hc => exact abandoned_exec hc

variable (hX : External M)
include hX

/-- **The original run abandons what the instrumented run does.** -/
theorem costed_original {imports : ℕ → Option D.Content} {es : List (Event D.toDataOps)}
    {s : State D.toDataOps} {n : ℕ}
    (hrun : CostedRun (instrumented M main (counter M)).step
      (abandoned (instrumented M main (counter M)) (handlerId M))
      ((instrumented M main (counter M)).initState imports) es s n)
    (himports : ∀ g c, imports g = some c → ContentAvoids (added M).Secret c) (hes : ∀ e ∈ es, Allowed M e) :
    CostedRun M.step (abandoned M (handlerId M)) (M.initState imports) (es.filterMap (original M)) (view M s) n := by
  have hinv : (∃ T, Tracked M main T s) ∧ CostedRun M.step (abandoned M (handlerId M)) (M.initState imports)
      (es.filterMap (original M)) (view M s) n := by
    refine hrun.costInvariant (fun es s n => (∃ T, Tracked M main T s) ∧
      CostedRun M.step (abandoned M (handlerId M)) (M.initState imports) (es.filterMap (original M))
        (view M s) n) (Allowed M) ?_ hes ⟨⟨0, hM.tracked_init himports⟩, ?_⟩
    · intro es s n a e s' ⟨⟨T, hs⟩, hcost⟩ he hstep
      obtain ⟨htracked, hread⟩ := hM.refines_instrumented hX s a e s' ⟨T, hs⟩ he hstep
      refine ⟨htracked, ?_⟩
      have hmove := hM.move_cases hX hs he hstep
      rw [List.filterMap_append]
      by_cases hshown : Shown M e
      · rw [original_eq_some hshown] at hread
        obtain ⟨a', hstep'⟩ := hread
        have ha : a' = a := (step_action _ _ _ _ hstep').symm.trans (step_action _ _ _ _ hstep)
        subst ha
        obtain ⟨-, -, -, hks, hfn⟩ := hM.program_of_shown hmove hshown
        have hview := view_program hks hfn
        have hpos := Run.positioned hcost.run
        rw [hview] at hpos
        have heq := hM.abandoned_original a' hs.counter.positioned hpos
        rw [← hview] at heq
        rw [List.filterMap_cons_some (original_eq_some hshown), List.filterMap_nil, ← heq]
        exact hcost.snoc hstep'
      · rw [original_eq_none hshown] at hread
        rw [List.filterMap_cons_none (original_eq_none hshown), List.filterMap_nil, List.append_nil,
          abandoned_inserted hmove hshown, hread]
        exact hcost
    · rw [hM.view_init]
      exact .nil
  exact hinv.2

omit hM hX in
/-- The inserted code begins no terminator outside the handler. -/
theorem beginsTerminator_inserted {e : Event D.toDataOps} (he : Inserted M main e) :
    beginsTerminator (handlerId M) e = false := by
  cases e with
  | exec g b is vs =>
    rcases he with ⟨-, -, rfl⟩ | ⟨n, I, hI, rfl⟩ | ⟨rfl, -⟩
    · exact beginsTerminator_plain rfl
    · simp only [countInsts, List.mem_cons, List.not_mem_nil, or_false] at hI
      rcases hI with rfl | rfl | rfl <;> exact beginsTerminator_plain rfl
    · exact beginsTerminator_self is
  | _ => rfl

/-- Both runs begin the same terminators. -/
theorem terminatorsBegun_original {imports : ℕ → Option D.Content} {es : List (Event D.toDataOps)}
    {s : State D.toDataOps} (hs : Reached M (instrumented M main (counter M)) imports es s) :
    terminatorsBegun (handlerId M) (es.filterMap (original M)) = terminatorsBegun (handlerId M) es := by
  have hins := hM.reached_inserted hX hs
  have hall : ∀ es : List (Event D.toDataOps), (∀ e ∈ es, original M e = none → Inserted M main e) →
      terminatorsBegun (handlerId M) (es.filterMap (original M)) = terminatorsBegun (handlerId M) es := by
    intro es
    induction es with
    | nil => exact fun _ => rfl
    | cons e es ih =>
      intro hes
      have hrest := ih fun e' he' => hes e' (List.mem_cons_of_mem _ he')
      rw [terminatorsBegun_cons]
      cases ho : original M e with
      | none =>
        rw [List.filterMap_cons_none ho, hrest,
          beginsTerminator_inserted (hes e List.mem_cons_self ho)]
        exact (Nat.zero_add _).symm
      | some e' =>
        rw [List.filterMap_cons_some ho, terminatorsBegun_cons, hrest, eq_of_original ho]
  exact hall es hins

/-- Both runs have entered the same number of blocks when they have ended. -/
theorem entered_original {imports : ℕ → Option D.Content} {es : List (Event D.toDataOps)}
    {s : State D.toDataOps} (hs : Reached M (instrumented M main (counter M)) imports es s)
    (hend : s.control = .done true) :
    blocksEntered (instrumented M main (counter M)) (handlerId M) es =
      blocksEntered M (handlerId M) (es.filterMap (original M)) := by
  obtain ⟨n, hcost⟩ := hs.run.costed (abandoned (instrumented M main (counter M)) (handlerId M))
  have hcost' := hM.costed_original hX hcost hs.outside hs.allowed
  have hnew := run_balance hM.distinct_instrumented hM.terminatorsLast_instrumented hcost
  have hold := run_balance (distinct_of_wellFormed hM.wf (handlerId M)) (terminatorsLast_of_wellFormed hM.wf)
    hcost'
  have hend' : (view M s).control = .done true := ((hM.reached_tracked hX hs).view_done true).mpr hend
  rw [opened_of_done hs.run hend] at hnew
  rw [opened_of_done hcost'.run hend', hM.terminatorsBegun_original hX hs] at hold
  omega

end Ready

/-- **The instrumented program enters the blocks of the original one**: at normal termination it has entered as
many as the run of the original program that it is read as, and as many frames were abandoned in both. -/
theorem blocksEntered_original {M M' : Module} {main H : Function} {D : DataSem}
    {imports : ℕ → Option D.Content} {es : List (Event D.toDataOps)} {s : State D.toDataOps}
    (hM : Ready M main) (hX : External M) (hM' : runOnModule M = .ok M')
    (hH : M'.getFunction atexitCallStr = some H) (hs : Reached M M' imports es s)
    (hend : s.control = .done true) :
    Run M.step (M.initState imports) (es.filterMap (original M)) (view M s) ∧
      blocksEntered M' H.id es = blocksEntered M H.id (es.filterMap (original M)) ∧
      ∀ n, CostedRun M'.step (abandoned M' H.id) (M'.initState imports) es s n →
        CostedRun M.step (abandoned M H.id) (M.initState imports) (es.filterMap (original M)) (view M s) n := by
  obtain ⟨rfl, hid⟩ := hM.result_eq hM' hH
  rw [hid]
  refine ⟨?_, hM.entered_original hX hs hend, fun n hcost => hM.costed_original hX hcost hs.outside hs.allowed⟩
  have hrun := ((hM.refines_instrumented hX).run hs.run hs.allowed ⟨0, hM.tracked_init hs.outside⟩).2
  rwa [hM.view_init] at hrun

/-- The `exit()` in `callModule` abandons the one block entered, in the original program as well. -/
theorem blocksEntered_original_callModule : ∃ M' H, runOnModule callModule = .ok M' ∧
    M'.getFunction atexitCallStr = some H ∧
    ∃ es s, Reached (D := wordSem) callModule M' (fun _ => none) es s ∧ s.control = .done true ∧
      blocksEntered callModule H.id (es.filterMap (original callModule)) = 1 ∧
      CostedRun callModule.step (abandoned callModule H.id) (callModule.initState fun _ => none)
        (es.filterMap (original callModule)) (view callModule s) 1 := by
  have hX : External callModule := External.of_absent rfl rfl
  have hid : (handlerFn callModule callMain).id = handlerId callModule := ready_callModule.handlerDecl_id
  have hreport : reportOf callModule callMain exitActs = some (true, true, 1, 1, [0]) := by rfl
  obtain ⟨es, s, hr, hreached, hdone, -, hentered, -⟩ := exists_reached hreport
  have hcounts : (instrumentedRun callModule callMain exitActs).map (fun r =>
      terminatorsBegun (handlerId callModule) r.1) = some 0 := by rfl
  rw [hr, Option.map_some, Option.some.injEq] at hcounts
  obtain ⟨n, hcost⟩ := hreached.run.costed
    (abandoned (instrumented callModule callMain (counter callModule)) (handlerId callModule))
  have hbalance := run_balance ready_callModule.distinct_instrumented ready_callModule.terminatorsLast_instrumented
    hcost
  rw [opened_of_done hreached.run hdone, hentered, hcounts] at hbalance
  obtain rfl : n = 1 := by omega
  obtain ⟨-, hsame, hcosts⟩ := blocksEntered_original ready_callModule hX ready_callModule.runOnModule
    ready_callModule.getFunction_instrumented hreached hdone
  rw [← hid] at hentered hcost
  exact ⟨_, _, ready_callModule.runOnModule, ready_callModule.getFunction_instrumented, es, s, hreached, hdone,
    hsame.symm.trans hentered, hcosts 1 hcost⟩

/-- **The report of an orderly run is the number of blocks the original program enters.** -/
theorem printedNumber_original {M M' : Module} {main H : Function} {D : DataSem}
    {imports : ℕ → Option D.Content} {es : List (Event D.toDataOps)} {s : State D.toDataOps}
    (hM : Ready M main) (hX : External M) (hM' : runOnModule M = .ok M')
    (hH : M'.getFunction atexitCallStr = some H) (hs : Reached M M' imports es s)
    (hend : s.control = .done true) (horderly : Orderly M' main H.id imports es s)
    (hfits : blocksEntered M H.id (es.filterMap (original M)) < 2 ^ 31) :
    es.filterMap (printedNumber H.id) = [(blocksEntered M H.id (es.filterMap (original M)) : ℤ)] := by
  obtain ⟨rfl, hid⟩ := hM.result_eq hM' hH
  rw [hid] at horderly hfits ⊢
  rw [← hM.entered_original hX hs hend] at hfits ⊢
  refine (hM.reportRight_orderly hX hs hend horderly hfits).number ?_
  omega

theorem printedNumber_original_catch : ∃ M' H, runOnModule catchModule = .ok M' ∧
    M'.getFunction atexitCallStr = some H ∧
    ∃ es s, Reached (D := wordSem) catchModule M' (fun _ => none) es s ∧ s.control = .done true ∧
      blocksEntered catchModule H.id (es.filterMap (original catchModule)) = 3 ∧
      es.filterMap (printedNumber H.id) = [3] := by
  have hX : External catchModule := External.of_absent rfl rfl
  have hid : (handlerFn catchModule catchMain).id = handlerId catchModule :=
    ready_catchModule.handlerDecl_id
  obtain ⟨es, s, hreached, hdone, hentered, horderly⟩ := orderly_catchModule
  rw [ready_catchModule.entered_original hX hreached hdone] at hentered
  rw [← hid] at hentered horderly
  have hprinted := printedNumber_original ready_catchModule hX ready_catchModule.runOnModule
    ready_catchModule.getFunction_instrumented hreached hdone horderly (by rw [hentered]; decide)
  rw [hentered] at hprinted
  exact ⟨_, _, ready_catchModule.runOnModule, ready_catchModule.getFunction_instrumented, es, s, hreached, hdone,
    hentered, hprinted⟩

end SnippetsLlvm.CountBB
