import SnippetsLlvm.CountBB.Tracked
import SnippetsLlvm.Library.Stuttering

/-!
# `count-bb` preserves the meaning of a program

A run of the instrumented program is read as a run of the original one: the registration, the counting code
and the whole run of the handler are left out, and what remains are the steps of the program, with the same
operand values, memory and order.

* `original` — what remains of an event;
* `view` — what remains of a state; while the handler runs, the program has reached its end;
* `Move.silent` — the moves of the inserted code leave the view alone and lower a rank;
* `refines_instrumented` — **every step of the instrumented program is one of the original program, or
  silent**;
* `progress`, `matched` — the inserted code can always go on, and after it so can the program;
* `lifts_instrumented` — **every step of the original program is made by the instrumented one**.
-/

namespace SnippetsLlvm.CountBB

open SnippetsLlvm.Ir SnippetsLlvm.Library

/-! ### The reading -/

section View

variable (M : Module) (main : Function)

instance {D : DataSem} : DecidablePred (Shown M (D := D))
  | .exec _ _ _ _ => inferInstanceAs (Decidable (_ ∧ _))
  | .unwind _ _ => .isTrue trivial
  | .act _ _ => inferInstanceAs (Decidable (_ ≠ _))
  | .handler _ => inferInstanceAs (Decidable (_ ≠ _))

/-- What remains of an event when the inserted code is left out. -/
def original {D : DataSem} (e : Event D.toDataOps) : Option (Event D.toDataOps) :=
  if Shown M e then some e else none

/-- While the handler runs, the program has ended and the registrations are being run. -/
def settle {D : DataSem} (s : State D.toDataOps) : State D.toDataOps :=
  match s.control, s.conts with
  | .exec fr, .env .exiting :: ks =>
    if fr.fn = handlerId M then { s with control := .env .exiting, conts := ks } else s
  | .env .ext, .frame fr _ :: .env .exiting :: ks =>
    if fr.fn = handlerId M then { s with control := .env .exiting, conts := ks } else s
  | _, _ => s

/-- What remains of a state when the inserted code is left out. -/
def view {D : DataSem} (s : State D.toDataOps) : State D.toDataOps := (added M).state (settle M s)

/-- The steps the inserted code can still make before the program makes one: what is left of the counting
code, or of the registrations and the handler. -/
def delay {D : DataSem} (s : State D.toDataOps) : ℕ :=
  match s.control with
  | .exec fr =>
    if fr.fn = handlerId M then 7 * s.handlers.length + 2 * fr.todo.length
    else (fr.todo.filter fun I => !(added M).keeps fr.fn I.id).length
  | .env .exiting => 7 * s.handlers.length
  | .env .ext => 7 * s.handlers.length + 3
  | _ => 0

/-- The inserted code at work: an instruction with a new identity in a function of the program, a step of
the handler, a return to it, or its start. -/
def Inserted {D : DataSem} : Event D.toDataOps → Prop
  | .exec g b is _ =>
    (g = main.id ∧ main.blocks.head?.map BasicBlock.id = some b ∧
      is = [registerCall main.nextValue (atexitId M) (handlerId M)]) ∨
    (∃ n, ∃ I ∈ countInsts n (counter M), is = [I]) ∨
    (g = handlerId M ∧ ∃ I ∈ [oldCounter 0 (counter M), printCall M main, handlerRet 0], is = [I])
  | .act caller a => caller = some (handlerId M) ∧ ∃ v, a = .ret v
  | .handler g => g = handlerId M
  | .unwind _ _ => False

/-- The program makes the next step. -/
structure ProgramNext {D : DataSem} (s : State D.toDataOps) : Prop where
  conts : ProgramStack M s.conts
  control : ∀ fr, s.control = .exec fr → fr.fn ≠ handlerId M
  kept : ∀ fr I rest, s.control = .exec fr → fr.todo = I :: rest → (added M).keeps fr.fn I.id = true
  handlers : s.control = .env .exiting → ∀ g rest, s.handlers = g :: rest → g ≠ handlerId M

end View

section Settle

variable {M : Module} {main : Function} {D : DataSem} {s : State D.toDataOps}

theorem settle_program (hks : ProgramStack M s.conts) (hfn : ∀ fr, s.control = .exec fr → fr.fn ≠ handlerId M) :
    settle M s = s := by
  rw [settle]
  split
  · rename_i fr ks hc _
    rw [if_neg (hfn fr hc)]
  · rename_i fr site ks hc hconts
    rw [hconts] at hks
    rw [if_neg (hks fr site List.mem_cons_self).1]
  · rfl

theorem view_program (hks : ProgramStack M s.conts) (hfn : ∀ fr, s.control = .exec fr → fr.fn ≠ handlerId M) :
    view M s = (added M).state s := by
  rw [view, settle_program hks hfn]

theorem view_exec {fr : Frame D.toDataOps} (hc : s.control = .exec fr) (hfn : fr.fn ≠ handlerId M)
    (hks : ProgramStack M s.conts) : view M s = (added M).state s := by
  refine view_program hks fun fr' hfr' => ?_
  rw [hc, Control.exec.injEq] at hfr'
  rwa [← hfr']

theorem view_exiting (hc : s.control = .env .exiting) (hks : ProgramStack M s.conts) :
    view M s = (added M).state s := by
  refine view_program hks fun fr hfr => ?_
  rw [hc] at hfr
  cases hfr

/-- What remains of a state of the handler. -/
theorem view_handler {fr : Frame D.toDataOps} {ks : List (Cont D.toDataOps)} (hc : s.control = .exec fr)
    (hfn : fr.fn = handlerId M) (hconts : s.conts = .env .exiting :: ks) :
    view M s = (added M).state { s with control := .env .exiting, conts := ks } := by
  rw [view, settle, hc, hconts]
  exact congrArg _ (if_pos hfn)

theorem view_printing {fr : Frame D.toDataOps} {site : Instruction} {ks : List (Cont D.toDataOps)}
    (hc : s.control = .env .ext) (hconts : s.conts = .frame fr site :: .env .exiting :: ks)
    (hfn : fr.fn = handlerId M) :
    view M s = (added M).state { s with control := .env .exiting, conts := ks } := by
  rw [view, settle, hc, hconts]
  exact congrArg _ (if_pos hfn)

/-- A frame of the program that moves past an inserted instruction is read as before. -/
theorem view_skip {s' : State D.toDataOps} {fr : Frame D.toDataOps} {I : Instruction}
    {rest : List Instruction} {v : Val D.Data} (hks : ProgramStack M s.conts) (hc : s.control = .exec fr)
    (hfn : fr.fn ≠ handlerId M) (ht : fr.todo = I :: rest) (hdrop : (added M).keeps fr.fn I.id = false)
    (hc' : s'.control = .exec ({ fr with todo := rest }.set I.id v)) (hconts : s'.conts = s.conts)
    (hmem : ∀ o, ¬ Hidden (added M).Secret o → s'.mem o = s.mem o)
    (hhandlers : (added M).handlers s'.handlers = (added M).handlers s.handlers)
    (hdyn : s'.nextDyn = s.nextDyn) : view M s' = view M s := by
  have hks' : ProgramStack M s'.conts := by rwa [hconts]
  rw [view_exec hc hfn hks, view_exec hc' hfn hks']
  refine (added M).state_congr ?_ hconts ((added M).mem_congr hmem) hhandlers hdyn
  rw [hc, hc']
  exact congrArg Control.exec ((added M).frame_skip ht hdrop v)

/-- A frame of the program that moves past an inserted instruction is no longer delayed by it. -/
theorem delay_skip {s' : State D.toDataOps} {fr : Frame D.toDataOps} {I : Instruction}
    {rest : List Instruction} {v : Val D.Data} (hc : s.control = .exec fr) (hfn : fr.fn ≠ handlerId M)
    (ht : fr.todo = I :: rest) (hdrop : (added M).keeps fr.fn I.id = false)
    (hc' : s'.control = .exec ({ fr with todo := rest }.set I.id v)) : delay M s' < delay M s := by
  have hafter : delay M s' = (rest.filter fun I => !(added M).keeps fr.fn I.id).length := by
    rw [delay, hc']
    exact if_neg hfn
  have hbefore : delay M s = (rest.filter fun I => !(added M).keeps fr.fn I.id).length + 1 := by
    rw [delay, hc]
    show (if fr.fn = handlerId M then _ else _) = _
    rw [if_neg hfn, ht, List.filter_cons_of_pos (by simp [hdrop]), List.length_cons]
  omega

/-- The delay while the handler runs. -/
theorem delay_handler {fr : Frame D.toDataOps} (hc : s.control = .exec fr) (hfn : fr.fn = handlerId M) :
    delay M s = 7 * s.handlers.length + 2 * fr.todo.length := by
  rw [delay, hc]
  exact if_pos hfn

/-- An event is read as it is. -/
theorem event_added (m : ℕ) (e : Event D.toDataOps) : (added M).event m e = e := by
  cases e with
  | exec g b is vs => rfl
  | unwind g exn => cases g <;> rfl
  | act caller a =>
    have hact : (added M).act m a = a := by cases a <;> rfl
    rw [Erasure.event, hact]
    cases caller <;> rfl
  | handler g => rfl

theorem original_eq_some {e : Event D.toDataOps} (h : Shown M e) : original M e = some e := if_pos h

theorem original_eq_none {e : Event D.toDataOps} (h : ¬ Shown M e) : original M e = none := if_neg h

/-- What remains of an event is the event. -/
theorem eq_of_original {e e' : Event D.toDataOps} (h : original M e' = some e) : e' = e := by
  rw [original] at h
  split at h
  · exact Option.some.inj h
  · cases h

theorem act_added (m : ℕ) (a : Act D.toDataOps) : (added M).act m a = a := by
  cases a <;> rfl

end Settle

/-! ### The moves -/

namespace Ready

variable {M : Module} {main : Function} (hM : Ready M main) {D : DataSem}
include hM

theorem hides_handler : (added M).hides (handlerId M) = true := by
  have hid := hM.handlerId_eq
  simp [added, hid]

/-- **The moves of the inserted code** leave the view alone and lower the delay. -/
theorem move_silent {T : ℕ} {s s' : State D.toDataOps} {a : Act D.toDataOps} {e : Event D.toDataOps}
    (h : Move M main T s a e s') : Shown M e ∨
      (¬ Shown M e ∧ Inserted M main e ∧ view M s' = view M s ∧ delay M s' < delay M s) := by
  have hhides := hM.hides_handler
  cases h with
  | program _ _ _ _ hshown => exact .inl hshown
  | @register fr rest hc hmain hfront hks ht =>
    have hfn : fr.fn ≠ handlerId M := by
      rw [hmain]
      exact hM.main_ne_handler
    have hdrop : (added M).keeps fr.fn main.nextValue = false := by
      rw [hmain, keeps_of_function? (hM.wf.function?_of_mem hM.main_mem)]
      simp
    refine .inr ⟨fun hshown => ?_, .inl ⟨hmain, hfront, rfl⟩, ?_, delay_skip hc hfn ht hdrop rfl⟩
    · have hkeep := hshown.2 _ List.mem_cons_self
      rw [show (registerCall main.nextValue (atexitId M) (handlerId M)).id = main.nextValue from rfl,
        hdrop] at hkeep
      cases hkeep
    · exact view_skip hks hc hfn ht hdrop rfl rfl (fun _ _ => rfl)
        ((added M).handlers_cons_hidden hhides s.handlers) rfl
  | @count fr n I rest vs v m hc hfn hks hI ht hdrop hv hm =>
    refine .inr ⟨fun hshown => ?_, .inr (.inl ⟨n, I, hI, rfl⟩), ?_, delay_skip hc hfn ht hdrop rfl⟩
    · have hkeep := hshown.2 I List.mem_cons_self
      rw [hdrop] at hkeep
      cases hkeep
    · exact view_skip hks hc hfn ht hdrop rfl rfl hm rfl rfl
  | @report hs hc hhs hks =>
    refine .inr ⟨fun hshown => hshown rfl, rfl, ?_, ?_⟩
    · rw [view_exiting hc hks]
      refine Eq.trans (view_handler rfl rfl rfl) ?_
      refine (added M).state_congr ?_ rfl rfl ?_ rfl
      · rw [hc]
      · rw [hhs, (added M).handlers_cons_hidden hhides]
    · have hbefore : delay M s = 7 * (hs.length + 1) := by
        rw [delay, hc, hhs]
        rfl
      rw [hbefore, delay_handler rfl rfl]
      show 7 * hs.length + 2 * 3 < _
      omega
  | @load ks m hc hconts hks hm =>
    refine .inr ⟨fun hshown => hshown.1 rfl, .inr (.inr ⟨rfl, _, .head _, rfl⟩), ?_, ?_⟩
    · rw [view_handler hc rfl hconts]
      refine Eq.trans (view_handler rfl rfl hconts) ?_
      exact (added M).state_congr rfl rfl ((added M).mem_congr hm) rfl rfl
    · rw [delay_handler hc rfl, delay_handler rfl rfl]
      show 7 * s.handlers.length + 2 * 2 < 7 * s.handlers.length + 2 * 3
      omega
  | @print fr ks fmt hc hfn ht hconts hks =>
    refine .inr ⟨fun hshown => hshown.1 rfl, .inr (.inr ⟨rfl, _, .tail _ (.head _), rfl⟩), ?_, ?_⟩
    · have hwait : Cont.frame { fr with todo := [handlerRet 0] } (printCall M main) :: s.conts =
          .frame { fr with todo := [handlerRet 0] } (printCall M main) :: .env .exiting :: ks := by
        rw [hconts]
      rw [view_handler hc hfn hconts]
      exact view_printing rfl hwait hfn
    · rw [delay_handler hc hfn, ht]
      show 7 * s.handlers.length + 3 < 7 * s.handlers.length + 2 * 2
      omega
  | @printed fr ks v hc hconts hfn ht hks hv =>
    refine .inr ⟨fun hshown => hshown rfl, ⟨rfl, v, rfl⟩, ?_, ?_⟩
    · rw [view_printing hc hconts hfn]
      exact view_handler rfl hfn rfl
    · have hbefore : delay M s = 7 * s.handlers.length + 3 := by
        rw [delay, hc]
      have hfn' : (fr.set 1 v).fn = handlerId M := hfn
      rw [hbefore, delay_handler rfl hfn']
      show 7 * s.handlers.length + 2 * fr.todo.length < _
      rw [ht]
      show 7 * s.handlers.length + 2 < _
      omega
  | @done fr ks hc hfn ht hconts hks =>
    refine .inr ⟨fun hshown => hshown.1 rfl, .inr (.inr ⟨rfl, _, .tail _ (.tail _ (.head _)), rfl⟩), ?_, ?_⟩
    · rw [view_handler hc hfn hconts]
      exact view_exiting rfl hks
    · rw [delay_handler hc hfn, ht]
      show 7 * s.handlers.length < 7 * s.handlers.length + 2
      omega

/-- A move that is shown is one of the program. -/
theorem program_of_shown {T : ℕ} {s s' : State D.toDataOps} {a : Act D.toDataOps} {e : Event D.toDataOps}
    (h : Move M main T s a e s') (hshown : Shown M e) :
    Erasable (added M) (instrumented M main (counter M)) M s ∧ Outside (added M).Secret a ∧
      (s.control = .env .exiting → a.looksAtHandlers = true → (added M).NextShown s) ∧
      ProgramStack M s.conts ∧ ∀ fr, s.control = .exec fr → fr.fn ≠ handlerId M := by
  cases h with
  | program herase hout hnext _ _ hks hfn => exact ⟨herase, hout, hnext, hks, hfn⟩
  | register hc hmain hfront hks ht =>
    have hkeep := hshown.2 _ List.mem_cons_self
    rw [hmain, keeps_of_function? (hM.wf.function?_of_mem hM.main_mem)] at hkeep
    simp [registerCall] at hkeep
  | count _ _ _ _ _ hdrop =>
    have hkeep := hshown.2 _ List.mem_cons_self
    rw [hdrop] at hkeep
    cases hkeep
  | report => exact absurd rfl hshown
  | printed => exact absurd rfl hshown
  | _ => exact absurd rfl hshown.1

/-! ### The simulation -/

variable (hX : External M)
include hX

/-- Every step of the instrumented program is a step of the original one, or one of the inserted code. -/
theorem refines_instrumented : Refines ((instrumented M main (counter M)).step (D := D.toDataOps)) M.step
    (view M) (original M) (fun s => ∃ T, Tracked M main T s) (Allowed M) := by
  rintro s a e s' ⟨T, hs⟩ he h
  refine ⟨⟨_, hM.step_tracked hX hs he h⟩, ?_⟩
  have hmove := hM.move_cases hX hs he h
  rcases hM.move_silent hmove with hshown | ⟨hsilent, -, hview, -⟩
  · rw [original_eq_some hshown]
    obtain ⟨herase, hout, hnext, hks, hfn⟩ := hM.program_of_shown hmove hshown
    have hclean := hM.cleanEvent_shown hs.counter.positioned he hshown h
    obtain ⟨hks', hfn'⟩ := hM.step_program hs.clean hks hfn hclean hshown h
    have hread := hM.erases_instrumented.step herase hout hnext
    rw [h, Option.map_some, event_added, act_added] at hread
    refine ⟨a, ?_⟩
    rw [view_program hks hfn, view_program hks' hfn']
    exact hread
  · rw [original_eq_none hsilent]
    exact hview

theorem descends_instrumented : Descends ((instrumented M main (counter M)).step (D := D.toDataOps))
    (original M) (fun s => ∃ T, Tracked M main T s) (Allowed M) (delay M) := by
  rintro s a e s' ⟨T, hs⟩ he h hsilent
  rcases hM.move_silent (hM.move_cases hX hs he h) with hshown | ⟨-, -, -, hlt⟩
  · rw [original_eq_some hshown] at hsilent
    cases hsilent
  · exact hlt

/-- **The inserted code can always go on**: when the program does not make the next step, it can. -/
theorem progress {T : ℕ} {s : State D.toDataOps} (hs : Tracked M main T s) : ProgramNext M s ∨
    ∃ a e s', (instrumented M main (counter M)).step s a = some (e, s') ∧ Allowed M e ∧
      original M e = none := by
  cases hs.shape with
  | program hks hfn =>
    by_cases hkept : ∀ fr I rest, s.control = .exec fr → fr.todo = I :: rest →
        (added M).keeps fr.fn I.id = true
    · by_cases hhead : s.control = .env .exiting ∧ ∃ rest, s.handlers = handlerId M :: rest
      · obtain ⟨hc, rest, hhs⟩ := hhead
        exact .inr ⟨_, _, _, hM.step_runHandler hc hhs, trivial, original_eq_none fun h => h rfl⟩
      · refine .inl ⟨hks, hfn, hkept, ?_⟩
        rintro hc g rest hhs rfl
        exact hhead ⟨hc, rest, hhs⟩
    · simp only [not_forall, Bool.not_eq_true] at hkept
      obtain ⟨fr, I, rest, hc, ht, hdrop⟩ := hkept
      obtain ⟨e, s', hstep, hmove⟩ := hM.inserted_step hX hs.counter hks hc (hfn fr hc) ht hdrop
      have hsilent : ¬ Shown M e := by
        intro hshown
        obtain ⟨herase, -⟩ := hM.program_of_shown hmove hshown
        rw [(herase.control fr hc).2 I rest ht] at hdrop
        cases hdrop
      obtain ⟨is, vs, rfl⟩ := exec_event hc hstep
      exact .inr ⟨_, _, _, hstep, trivial, original_eq_none hsilent⟩
  | loading hc hconts hks =>
    obtain ⟨c, hcell, hx⟩ := cell_of_handler hs.counter hc rfl
    exact .inr ⟨_, _, _, step_load hc rfl hcell hx, trivial, original_eq_none fun h => h.1 rfl⟩
  | calling hc hfn ht hl hconts hks =>
    obtain ⟨fmt, hstep⟩ := hM.step_handlerCall hX hc ht hl
    exact .inr ⟨_, _, _, hstep, trivial, original_eq_none fun h => h.1 hfn⟩
  | printing hc hconts hfn ht hks =>
    refine .inr ⟨_, _, _, step_printed (v := .void) hc hconts, ⟨avoids_void, fun _ => ⟨_, rfl⟩⟩,
      original_eq_none fun h => h (congrArg some hfn)⟩
  | returning hc hfn ht hconts hks =>
    exact .inr ⟨_, _, _, step_handlerRet hc ht hconts, trivial, original_eq_none fun h => h.1 hfn⟩

omit hX in
/-- A step from a state in which the program makes the next one is shown. -/
theorem shown_of_programNext {s s' : State D.toDataOps} {a : Act D.toDataOps} {e : Event D.toDataOps}
    (hpos : Positioned (instrumented M main (counter M)) s) (hs : ProgramNext M s)
    (h : (instrumented M main (counter M)).step s a = some (e, s')) : Shown M e := by
  cases hc : s.control with
  | exec fr =>
    exact hM.shown_of_kept hpos hc (hs.control fr hc) (fun I rest => hs.kept fr I rest hc) h
  | raise exn =>
    cases step_cases h with
    | unwind => trivial
    | env hk => rw [hc] at hk; cases hk
    | phis hk => rw [hc] at hk; cases hk
    | _ hk => rw [hc] at hk; cases hk
  | env k =>
    simp only [Module.step, hc] at h
    obtain ⟨t, henv, ht⟩ := Option.map_eq_some_iff.mp h
    cases ht
    refine shown_env hs.conts ?_
    rintro rfl
    cases env_cases henv with
    | skipHandler hhs =>
      rw [hhs, List.headD_cons]
      exact hs.handlers hc _ _ hhs
    | runHandler hhs =>
      rw [hhs, List.headD_cons]
      exact hs.handlers hc _ _ hhs
  | done normal =>
    simp only [Module.step, hc] at h
    cases a <;> cases h

omit hX in
/-- **When the program makes the next step, every step of the original program is one of the instrumented
one.** -/
theorem matched {T : ℕ} {s : State D.toDataOps} {a : Act D.toDataOps} {e : Event D.toDataOps}
    {t : State D.toDataOps} (hs : Tracked M main T s) (hnext : ProgramNext M s)
    (he : FromOutside (added M).Secret e) (h : M.step (view M s) a = some (e, t)) :
    ∃ b e' s', (instrumented M main (counter M)).step s b = some (e', s') ∧ Allowed M e' ∧
      original M e' = some e ∧ view M s' = t := by
  have hpos := hs.counter.positioned
  have hout : Outside (added M).Secret a := step_action _ _ _ _ h ▸ he.action
  have hshownNext : s.control = .env .exiting → a.looksAtHandlers = true → (added M).NextShown s := by
    intro hc _ g rest hhs
    by_contra hg
    have hsecret : (added M).Secret g := by simpa [Erasure.Secret] using hg
    have hmem : g ∈ s.handlers := by
      rw [hhs]
      exact List.mem_cons_self
    exact hnext.handlers hc g rest hhs (hs.handlers g hmem hsecret)
  have hread := hM.erases_instrumented.step
    (hM.erasable hpos hs.clean hnext.conts hnext.control hnext.kept) hout hshownNext
  rw [view_program hnext.conts hnext.control] at h
  rw [act_added, h] at hread
  obtain ⟨⟨e', s'⟩, hstep, heq⟩ := Option.map_eq_some_iff.mp hread.symm
  rw [event_added, Prod.mk.injEq] at heq
  obtain ⟨rfl, rfl⟩ := heq
  have hshown := hM.shown_of_programNext hpos hnext hstep
  have hallowed : Allowed M e' := by
    cases e' with
    | act caller b => exact ⟨he, fun hcaller => absurd hcaller hshown⟩
    | _ => trivial
  have hclean := hM.cleanEvent_shown hpos hallowed hshown hstep
  obtain ⟨hks', hfn'⟩ := hM.step_program hs.clean hnext.conts hnext.control hclean hshown hstep
  exact ⟨a, e', s', hstep, hallowed, original_eq_some hshown, view_program hks' hfn'⟩

omit hX in
/-- Before the program starts the two programs are in the same state. -/
theorem view_init (imports : ℕ → Option D.Content) :
    view M ((instrumented M main (counter M)).initState imports) = M.initState imports := by
  obtain ⟨fmt, hfmt, hglobals⟩ := instrumented_globals M main (counter M)
  have hmem : (added M).mem ((instrumented M main (counter M)).initState imports).mem =
      (M.initState (D := D.toDataOps) imports).mem := by
    funext o
    cases o with
    | dyn n => rfl
    | global g =>
      by_cases hg : (added M).hides g = true
      · have hnone : M.global? g = none := by
          refine List.find?_eq_none.mpr fun G hG => ?_
          have hlt := hM.wf.global_lt hG
          have hle := secret_iff.mp hg
          simpa using Nat.ne_of_lt (Nat.lt_of_lt_of_le hlt hle)
        have hread : (added M).mem ((instrumented M main (counter M)).initState imports).mem (.global g) =
            none := if_pos hg
        rw [hread]
        show none = (M.global? g).bind _
        rw [hnone]
        rfl
      · have hkept : (added M).hidesObj (.global g) = false := by simpa [Erasure.hidesObj] using hg
        rw [(added M).mem_apply hkept]
        have hsame : (instrumented M main (counter M)).global? g = M.global? g := by
          have hcounter : (counter M).id ≠ g := by
            rw [hM.counter_eq]
            rintro rfl
            exact hg (secret_iff.mpr (Nat.le_refl _))
          have hformat : fmt.id ≠ g := by
            rintro rfl
            rw [hfmt] at hg
            exact hg (secret_iff.mpr (le_withPrintf_nextGlobal M main))
          rw [Module.global?, Module.global?, hglobals, List.find?_append]
          simp [hcounter, hformat]
        simp only [Module.initState, hsame]
  have hks : ProgramStack M ((instrumented M main (counter M)).initState (D := D.toDataOps) imports).conts := by
    intro fr site h
    cases h
  have hfn : ∀ fr, ((instrumented M main (counter M)).initState (D := D.toDataOps) imports).control = .exec fr →
      fr.fn ≠ handlerId M := by
    intro fr h
    cases h
  rw [view_program hks hfn, Erasure.state, hmem]
  rfl

end Ready

end SnippetsLlvm.CountBB
