import SnippetsLlvm.CountBB.Inserted

/-!
# The moves of an instrumented program

Between two moves of the program itself the inserted code makes its own: the registration, the counting, the
handler at exit with its call of `printf`.  `Shape` says which of them may come next and `Move` lists them
with the states they lead to; what a run of the instrumented program preserves is then proved move by move.

* `Tracked` — the counter invariant, the secrecy of the new addresses and the shape, together;
* `Allowed` — the environment does not know the new addresses, and `printf` only returns to the handler;
* `erasable`, `step_program` — **when the program comes next, its step is seen and leaves its stack to it**;
* `inserted_step` — an inserted instruction makes one of the moves.
-/

namespace SnippetsLlvm.CountBB

open SnippetsLlvm.Ir SnippetsLlvm.Library

section Moves

variable (M : Module) (main : Function) {D : DataSem}

/-! ### Shapes -/

/-- What waits is the program: no frame of the handler, and each frame at an original call. -/
def ProgramStack (ks : List (Cont D.toDataOps)) : Prop :=
  ∀ fr site, .frame fr site ∈ ks → fr.fn ≠ handlerId M ∧ (added M).keeps fr.fn site.id = true

/-- The program runs, or the handler does, on top of the code that runs at exit; `T` terminators have
begun. -/
inductive Shape (T : ℕ) (s : State D.toDataOps) : Prop where
  | program : ProgramStack M s.conts → (∀ fr, s.control = .exec fr → fr.fn ≠ handlerId M) → Shape T s
  | loading {ks} : s.control = .exec (handlerFrame M main D) → s.conts = .env .exiting :: ks →
      ProgramStack M ks → Shape T s
  | calling {fr ks} : s.control = .exec fr → fr.fn = handlerId M →
      fr.todo = [printCall M main, handlerRet 0] →
      fr.locals 0 = some (.int 64 (BitVec.ofNat 64 T)) → s.conts = .env .exiting :: ks →
      ProgramStack M ks → Shape T s
  | printing {fr ks} : s.control = .env .ext →
      s.conts = .frame fr (printCall M main) :: .env .exiting :: ks → fr.fn = handlerId M →
      fr.todo = [handlerRet 0] → ProgramStack M ks → Shape T s
  | returning {fr ks} : s.control = .exec fr → fr.fn = handlerId M → fr.todo = [handlerRet 0] →
      s.conts = .env .exiting :: ks → ProgramStack M ks → Shape T s

/-- A reachable state in which `T` terminators have begun. -/
structure Tracked (T : ℕ) (s : State D.toDataOps) : Prop where
  counter : CounterInv M main T s
  clean : s.Clean (added M).Secret
  handlers : ∀ g ∈ s.handlers, (added M).Secret g → g = handlerId M
  shape : Shape M main T s

/-- The environment does not know the new addresses, and from `printf` it only returns to the handler. -/
def Allowed : Event D.toDataOps → Prop
  | .act caller a => Outside (added M).Secret a ∧ (caller = some (handlerId M) → ∃ v, a = .ret v)
  | _ => True

/-! ### Moves -/

/-- The event of a move of the program. -/
def Shown : Event D.toDataOps → Prop
  | .exec g _ is _ => g ≠ handlerId M ∧ ∀ I ∈ is, (added M).keeps g I.id = true
  | .act caller _ => caller ≠ some (handlerId M)
  | .handler g => g ≠ handlerId M
  | .unwind _ _ => True

/-- What can happen in a state in which `T` terminators have begun. -/
inductive Move (T : ℕ) (s : State D.toDataOps) :
    Act D.toDataOps → Event D.toDataOps → State D.toDataOps → Prop where
  /-- a move of the program -/
  | program {a e s'} : Erasable (added M) (instrumented M main (counter M)) M s →
      Outside (added M).Secret a →
      (s.control = .env .exiting → a.looksAtHandlers = true → (added M).NextShown s) →
      (instrumented M main (counter M)).step s a = some (e, s') → Shown M e →
      ProgramStack M s.conts → (∀ fr, s.control = .exec fr → fr.fn ≠ handlerId M) → Move T s a e s'
  | register {fr rest} : s.control = .exec fr → fr.fn = main.id →
      main.blocks.head?.map BasicBlock.id = some fr.block → ProgramStack M s.conts →
      fr.todo = registerCall main.nextValue (atexitId M) (handlerId M) :: rest →
      Move T s .tick
        (.exec fr.fn fr.block [registerCall main.nextValue (atexitId M) (handlerId M)]
          [.ptr (.global (handlerId M)) 0, .ptr (.global (atexitId M)) 0])
        { s with control := .exec ({ fr with todo := rest }.set main.nextValue (.int 32 0)),
                 handlers := handlerId M :: s.handlers }
  | count {fr n I rest vs v m} : s.control = .exec fr → fr.fn ≠ handlerId M → ProgramStack M s.conts →
      I ∈ countInsts n (counter M) → fr.todo = I :: rest → (added M).keeps fr.fn I.id = false →
      v.Avoids (added M).Secret → (∀ o, ¬ Hidden (added M).Secret o → m o = s.mem o) →
      Move T s .tick (.exec fr.fn fr.block [I] vs)
        { s with control := .exec ({ fr with todo := rest }.set I.id v), mem := m }
  | report {hs} : s.control = .env .exiting → s.handlers = handlerId M :: hs →
      ProgramStack M s.conts →
      Move T s .runHandler (.handler (handlerId M))
        { s with control := .exec (handlerFrame M main D), conts := .env .exiting :: s.conts,
                 handlers := hs }
  | load {ks m} : s.control = .exec (handlerFrame M main D) → s.conts = .env .exiting :: ks →
      ProgramStack M ks → (∀ o, ¬ Hidden (added M).Secret o → m o = s.mem o) →
      Move T s .tick
        (.exec (handlerId M) 0 [oldCounter 0 (counter M)] [.ptr (.global (counter M).id) 0])
        { s with control := .exec ({ handlerFrame M main D with todo := [printCall M main, handlerRet 0] }.set
                   0 (.int 64 (BitVec.ofNat 64 T))),
                 mem := m }
  | print {fr ks fmt} : s.control = .exec fr → fr.fn = handlerId M →
      fr.todo = [printCall M main, handlerRet 0] → s.conts = .env .exiting :: ks → ProgramStack M ks →
      Move T s .tick
        (.exec (handlerId M) fr.block [printCall M main]
          [fmt, .int 64 (BitVec.ofNat 64 T), .ptr (.global (printfId M main)) 0])
        { s with control := .env .ext,
                 conts := .frame { fr with todo := [handlerRet 0] } (printCall M main) :: s.conts }
  | printed {fr ks v} : s.control = .env .ext →
      s.conts = .frame fr (printCall M main) :: .env .exiting :: ks → fr.fn = handlerId M →
      fr.todo = [handlerRet 0] → ProgramStack M ks → v.Avoids (added M).Secret →
      Move T s (.ret v) (.act (some (handlerId M)) (.ret v))
        { s with control := .exec (fr.set 1 v), conts := .env .exiting :: ks }
  | done {fr ks} : s.control = .exec fr → fr.fn = handlerId M → fr.todo = [handlerRet 0] →
      s.conts = .env .exiting :: ks → ProgramStack M ks →
      Move T s .tick (.exec (handlerId M) fr.block [handlerRet 0] [])
        { s with control := .env .exiting, conts := ks }

end Moves

/-! ### Steps of the program -/

namespace Ready

variable {M : Module} {main : Function} (hM : Ready M main) {D : DataSem}
include hM

/-- An identity the pass did not draw is not that of the handler. -/
theorem ne_handler {g : ℕ} (hg : ¬ (added M).Secret g) : g ≠ handlerId M := by
  rw [secret_iff] at hg
  have h := hM.handlerId_eq
  omega

/-- The pass keeps personalities. -/
theorem personality_instrumented {g : ℕ} (hg : g < M.nextGlobal) :
    ((instrumented M main (counter M)).function? g).bind Function.personality =
      (M.function? g).bind Function.personality := by
  rw [hM.function?_old hg]
  cases hF : M.function? g with
  | none => rfl
  | some F =>
    rw [Option.map_some, Option.bind_some, Option.bind_some]
    show Function.personality (if F.id = main.id then _ else F) = _
    split
    · rw [registerAtFront]
      split <;> rfl
    · rfl

/-- A frame in place outside the handler is one of an old function. -/
theorem old_of_block? {g b : ℕ} {B : BasicBlock} (hg : g ≠ handlerId M)
    (hB : (instrumented M main (counter M)).block? g b = some B) : g < M.nextGlobal := by
  obtain ⟨K, -⟩ := hM.block?_inv hg hB
  have hlt := hM.wf.function_lt (Module.mem_of_function? K.fn_eq).1
  rwa [(Module.mem_of_function? K.fn_eq).2] at hlt

/-- **When the program comes next, its step is seen.** -/
theorem erasable {s : State D.toDataOps}
    (hpos : Positioned (instrumented M main (counter M)) s) (hclean : s.Clean (added M).Secret)
    (hks : ProgramStack M s.conts) (hfn : ∀ fr, s.control = .exec fr → fr.fn ≠ handlerId M)
    (hfront : ∀ fr I rest, s.control = .exec fr → fr.todo = I :: rest →
      (added M).keeps fr.fn I.id = true) :
    Erasable (added M) (instrumented M main (counter M)) M s where
  positioned := hpos
  clean := hclean
  control fr hc := by
    obtain ⟨B, hB, -⟩ := hpos.control fr hc
    exact ⟨hidesFn_iff.mpr (hM.old_of_block? (hfn fr hc) hB), fun I rest => hfront fr I rest hc⟩
  conts fr site h := by
    obtain ⟨B, hB, -⟩ := hpos.conts fr site h
    exact ⟨hidesFn_iff.mpr (hM.old_of_block? (hks fr site h).1 hB), (hks fr site h).2⟩
  unwinds exn fr site rest ft _ h _ := by
    have hmem : .frame fr site ∈ s.conts := by
      rw [h]
      exact .head _
    obtain ⟨B, hB, -⟩ := hpos.conts fr site hmem
    rw [hM.personality_instrumented (hM.old_of_block? (hks fr site hmem).1 hB)]
    rfl

/-- What a step of the program executes does not refer to what was added. -/
theorem cleanEvent_shown {s s' : State D.toDataOps} {a : Act D.toDataOps} {e : Event D.toDataOps}
    (hpos : Positioned (instrumented M main (counter M)) s) (he : Allowed M e) (hshown : Shown M e)
    (h : (instrumented M main (counter M)).step s a = some (e, s')) :
    CleanEvent (added M).Secret e := by
  cases e with
  | exec g b is vs =>
    obtain ⟨B, hB, hmem⟩ := exec_mem hpos h
    have hold := hM.old_of_block? hshown.1 hB
    have hread := hM.erases_instrumented.blocks g b B (hidesFn_iff.mpr hold) hB
    exact fun I hI => hread.quiet I (hmem I hI) (hshown.2 I hI)
  | act caller a => exact he.1
  | _ => trivial

/-- **After a step of the program the program comes next.** -/
theorem step_program {s s' : State D.toDataOps} {a : Act D.toDataOps} {e : Event D.toDataOps}
    (hclean : s.Clean (added M).Secret) (hks : ProgramStack M s.conts)
    (hfn : ∀ fr, s.control = .exec fr → fr.fn ≠ handlerId M) (he : CleanEvent (added M).Secret e)
    (hshown : Shown M e) (h : (instrumented M main (counter M)).step s a = some (e, s')) :
    ProgramStack M s'.conts ∧ ∀ fr, s'.control = .exec fr → fr.fn ≠ handlerId M := by
  have hM' := hM.erases_instrumented.aliasees
  -- one frame more on the stack, at a kept call
  have hpush : ∀ {fr : Frame D.toDataOps} {I : Instruction} {rest : List Instruction},
      s.control = .exec fr → (added M).keeps fr.fn I.id = true →
      ProgramStack M (.frame { fr with todo := rest } I :: s.conts) := by
    intro fr I rest hc hI fr' site hmem
    rcases List.mem_cons.mp hmem with heq | hmem
    · cases heq
      exact ⟨hfn fr hc, hI⟩
    · exact hks fr' site hmem
  have hpushEnv : ∀ {k : EnvKind}, ProgramStack M (.env k :: s.conts) := by
    intro k fr site hmem
    rcases List.mem_cons.mp hmem with heq | hmem
    · cases heq
    · exact hks fr site hmem
  have hsame : ∀ {fr fr' fr'' : Frame D.toDataOps}, Control.exec fr' = .exec fr'' → s.control = .exec fr →
      fr'.fn = fr.fn → fr''.fn ≠ handlerId M := by
    intro fr fr' fr'' hfr hc heq
    cases hfr
    rw [heq]
    exact hfn fr hc
  have hentered : ∀ {g : ℕ} {F : Function} {as : List (Val D.Data)} {fr fr' : Frame D.toDataOps},
      (instrumented M main (counter M)).function? g = some F → F.enter as = some fr →
      ¬ (added M).Secret g → Control.exec fr = .exec fr' → fr'.fn ≠ handlerId M := by
    intro g F as fr fr' hF hfr hg heq
    cases heq
    obtain ⟨-, -, -, -, hid⟩ := enter_inv hF hfr
    rw [hid]
    exact hM.ne_handler hg
  cases step_cases h with
  | phis hc => exact ⟨hks, fun fr' hfr' => hsame hfr' hc (Frame.setAll_fn _ _ _)⟩
  | value hc => exact ⟨hks, fun fr' hfr' => hsame hfr' hc rfl⟩
  | alloca hc => exact ⟨hks, fun fr' hfr' => hsame hfr' hc rfl⟩
  | memory hc => exact ⟨hks, fun fr' hfr' => hsame hfr' hc rfl⟩
  | register hc _ _ _ _ _ _ _ _ hd =>
    exact ⟨hks, fun fr' hfr' => hsame hfr' hc ((deliver_fn hd).trans rfl)⟩
  | callOut hc => exact ⟨hpush hc (hshown.2 _ List.mem_cons_self), fun fr' hfr' => by cases hfr'⟩
  | @callIn fr I rest vs g A fr' hc ht hk hvs hlast hA hfr =>
    refine ⟨hpush hc (hshown.2 _ List.mem_cons_self), fun fr'' hfr'' => ?_⟩
    have hfrClean : fr.Clean (added M).Secret := by
      have hcl := hclean.control
      rwa [hc] at hcl
    have havoid := operandVals_avoid hM' hfrClean (he _ List.mem_cons_self) hvs _
      (List.mem_of_getLast? hlast)
    exact hentered hA hfr (fun hg => havoid g hg rfl) hfr''
  | ret hc _ _ _ hr =>
    have hcase := return_cases hr
    generalize s.conts = ks at hks hcase
    cases hcase with
    | @frame fr site rest fr' hd =>
      have hcall := hks fr site List.mem_cons_self
      refine ⟨fun fr'' site' hmem => hks fr'' site' (List.mem_cons_of_mem _ hmem), fun fr'' hfr'' => ?_⟩
      cases hfr''
      rw [deliver_fn hd]
      exact hcall.1
    | main => exact ⟨fun _ _ hmem => (nomatch hmem), fun _ hfr => (nomatch hfr)⟩
    | env =>
      exact ⟨fun fr'' site' hmem => hks fr'' site' (List.mem_cons_of_mem _ hmem),
        fun _ hfr => (nomatch hfr)⟩
  | goto hc _ _ _ _ hj => exact ⟨hks, fun fr' hfr' => hsame hfr' hc (jump_fn hj)⟩
  | raise => exact ⟨hks, fun _ hfr => (nomatch hfr)⟩
  | unwind _ hr =>
    have hcase := unwind_cases hr
    generalize s.conts = ks at hks hcase
    cases hcase with
    | @caught fr site rest ft c b fr' _ _ _ hj =>
      have hcall := hks fr site List.mem_cons_self
      refine ⟨fun fr'' site' hmem => hks fr'' site' (List.mem_cons_of_mem _ hmem), fun fr'' hfr'' => ?_⟩
      cases hfr''
      rw [jump_fn hj]
      exact hcall.1
    | terminate => exact ⟨fun _ _ hmem => (nomatch hmem), fun _ hfr => (nomatch hfr)⟩
    | _ =>
      exact ⟨fun fr'' site' hmem => hks fr'' site' (List.mem_cons_of_mem _ hmem),
        fun _ hfr => (nomatch hfr)⟩
  | env hk henv =>
    have hidle : ∀ fr, s.control ≠ .exec fr := fun fr hfr => by rw [hk] at hfr; cases hfr
    cases env_cases henv with
    | @ret fr site rest v fr' hconts hd =>
      rw [hconts] at hks
      have hcall := hks fr site List.mem_cons_self
      refine ⟨fun fr'' site' hmem => hks fr'' site' (List.mem_cons_of_mem _ hmem), fun fr'' hfr'' => ?_⟩
      cases hfr''
      rw [deliver_fn hd]
      exact hcall.1
    | throw => exact ⟨hks, fun _ hfr => (nomatch hfr)⟩
    | callback hF hfr =>
      have hout : Outside (added M).Secret _ := cleanEvent_env he
      exact ⟨hpushEnv, fun fr' hfr' => hentered hF hfr hout.1 hfr'⟩
    | exit => exact ⟨fun _ _ hmem => (nomatch hmem), fun _ hfr => (nomatch hfr)⟩
    | @runMain args main' F fr hmain hF hfr =>
      refine ⟨hpushEnv, fun fr' hfr' => hentered hF hfr ?_ hfr'⟩
      rw [hM.getFunction_main, Option.some.injEq] at hmain
      subst hmain
      have hid : (countedMain M main).id = main.id := registerAtFront_id _ _ main
      rw [hid, secret_iff]
      exact Nat.not_le.mpr hM.main_lt
    | @runHandler g rest F fr hh hF hfr =>
      refine ⟨hpushEnv, fun fr' hfr' => ?_⟩
      have hne : g ≠ handlerId M := by
        have hg : Shown M (.handler (s.handlers.headD 0)) := hshown
        rw [hh] at hg
        exact hg
      cases hfr'
      obtain ⟨-, -, -, -, hid⟩ := enter_inv hF hfr
      rw [hid]
      exact hne
    | finish => exact ⟨hks, fun _ hfr => (nomatch hfr)⟩
    | abort => exact ⟨hks, fun _ hfr => (nomatch hfr)⟩
    | write => exact ⟨hks, fun fr hfr => absurd hfr (hidle fr)⟩
    | malloc => exact ⟨hks, fun fr hfr => absurd hfr (hidle fr)⟩
    | skipHandler => exact ⟨hks, fun fr hfr => absurd hfr (hidle fr)⟩

/-! ### Every step is a move -/

/-- An allowed event leaves the counter alone. -/
theorem undisturbed {s s' : State D.toDataOps} {a : Act D.toDataOps} {e : Event D.toDataOps}
    (hclean : s.Clean (added M).Secret) (he : Allowed M e)
    (h : (instrumented M main (counter M)).step s a = some (e, s')) :
    Undisturbed M (counter M).id e := by
  have hsecret : (added M).Secret (counter M).id := by
    rw [secret_iff, hM.counter_eq]
  cases e with
  | exec g b is vs =>
    intro I hI hk horig off hptr
    cases exec_cases h with
    | phis =>
      have hphi := List.all_eq_true.mp List.all_takeWhile I hI
      rw [isPhi_eq_false (by rw [hk]; decide)] at hphi
      cases hphi
    | @inst fr J rest _ hc _ _ hvs =>
      obtain rfl := List.mem_singleton.mp hI
      have hfr : fr.Clean (added M).Secret := by
        have hcl := hclean.control
        rwa [hc] at hcl
      have havoid := operandVals_avoid hM.erases_instrumented.aliasees hfr (hM.quiet_of_original horig) hvs
      exact havoid _ (List.mem_of_getElem? hptr) _ hsecret rfl
  | act caller a =>
    cases a with
    | write eff => exact he.1.1 _ hsecret
    | _ => trivial
  | _ => trivial

omit hM in
/-- What the counter holds when the handler runs. -/
theorem cell_of_handler {T : ℕ} {s : State D.toDataOps} {fr : Frame D.toDataOps}
    (hs : CounterInv M main T s) (hc : s.control = .exec fr) (hfn : fr.fn = handlerId M) :
    ∃ c, s.mem (.global (counter M).id) = some c ∧ D.Holds64 c (BitVec.ofNat 64 T) := by
  obtain ⟨c, x, hmem, hx, hph⟩ := hs.cell
  rw [hc] at hph
  cases hph with
  | report => exact ⟨c, hmem, hx⟩
  | _ => contradiction

variable (hX : External M)
include hX

/-- **The next instruction of an old function that is not the program's** is the registration, or one of the
counting code. -/
theorem inserted_step {T : ℕ} {s : State D.toDataOps} {fr : Frame D.toDataOps} {I : Instruction}
    {rest : List Instruction} (hs : CounterInv M main T s) (hks : ProgramStack M s.conts)
    (hc : s.control = .exec fr) (hfn : fr.fn ≠ handlerId M) (ht : fr.todo = I :: rest)
    (hdrop : (added M).keeps fr.fn I.id = false) :
    ∃ e s', (instrumented M main (counter M)).step s .tick = some (e, s') ∧
      Move M main T s .tick e s' := by
  have hcounter : Hidden (added M).Secret (.global (counter M).id) := by
    show (added M).Secret _
    rw [secret_iff, hM.counter_eq]
  have hmem : ∀ (c : D.Content) o, ¬ Hidden (added M).Secret o →
      (if o = .global (counter M).id then some c else s.mem o) = s.mem o := by
    intro c o ho
    refine if_neg fun heq => ho ?_
    rw [heq]
    exact hcounter
  have hkept : ∀ {K : Counted M fr.fn fr.block} {J : Instruction}, J ∈ K.body ++ [K.term] → J ≠ I := by
    intro K J hJ heq
    rw [← heq, (hM.keeps_insts K).1 J hJ] at hdrop
    cases hdrop
  obtain ⟨c, x, hcell, hx, hph⟩ := hs.cell
  rw [hc] at hph
  cases hph with
  | report hg => exact absurd hg hfn
  | counting K pre post _ hsplit htodo =>
    rw [ht] at htodo
    cases post with
    | nil =>
      obtain ⟨rfl, rfl⟩ := List.cons.inj htodo
      exact ⟨_, _, step_load hc ht hcell hx, .count hc hfn hks List.mem_cons_self ht hdrop
        (avoids_int _) (hmem c)⟩
    | cons J post =>
      obtain ⟨rfl, hrest⟩ := List.cons.inj htodo
      have hI : I ∈ frontInsts M main fr.fn fr.block ++ K.body := by
        rw [hsplit]
        exact List.mem_append_right _ List.mem_cons_self
      rcases List.mem_append.mp hI with hI | hI
      · have heq := eq_of_mem_frontInsts hI
        rw [frontInsts] at hI
        split at hI
        · rename_i hfront
          subst heq
          exact ⟨_, _, hM.step_register hX hc ht, .register hc hfront.1 hfront.2 hks ht⟩
        · cases hI
      · exact absurd rfl (hkept (List.mem_append_left _ hI))
  | adding K _ htodo hl =>
    rw [ht] at htodo
    obtain ⟨rfl, rfl⟩ := List.cons.inj htodo
    exact ⟨_, _, step_add hc ht hl, .count hc hfn hks (.tail _ (.head _)) ht hdrop (avoids_int _)
      fun _ _ => rfl⟩
  | storing K _ htodo hl =>
    rw [ht] at htodo
    obtain ⟨rfl, rfl⟩ := List.cons.inj htodo
    obtain ⟨c', hstep⟩ := step_store hc ht hl hcell hx
    exact ⟨_, _, hstep, .count hc hfn hks (.tail _ (.tail _ (.head _))) ht hdrop avoids_void (hmem c')⟩
  | leaving K _ htodo =>
    rw [ht] at htodo
    obtain ⟨rfl, -⟩ := List.cons.inj htodo
    exact absurd rfl (hkept (List.mem_append_right _ List.mem_cons_self))

end Ready

end SnippetsLlvm.CountBB
