import SnippetsLlvm.CountBB.Entered

/-!
# The report of `count-bb`

Every entry of `main` registers the handler once more, and every registration prints once what the counter
holds when it runs: the number of terminators begun so far, of which `%d` shows the low 32 bits.

* `Reported` — the registrations, the starts of the handler and what was printed, along a run;
* `tally` — what one move does to them;
* `Ready.reportRight_counts` — **the report is right exactly when `main` is entered once and, below `2 ^ 63`, the
  number of blocks entered fits in 31 bits and is the number of terminators begun when the handler starts**;
* `reportRight_callModule` — a block left by `exit()` is not counted, and a `main` entered twice reports
  twice.
-/

namespace SnippetsLlvm.CountBB

open SnippetsLlvm.Ir SnippetsLlvm.Library

/-! ### What is reported -/

section Events

variable {D : DataOps}

/-- Whether an event starts the function `h` at exit. -/
def startsHandler (h : ℕ) : Event D → Bool
  | .handler g => g == h
  | _ => false

/-- What `%d` shows of a number: its low 32 bits, with a sign. -/
def lowSigned {w : ℕ} (x : BitVec w) : ℤ := (x.setWidth 32).toInt

/-- The number the function `h` prints, when an event is its call of `printf`. -/
def printedNumber (h : ℕ) : Event D → Option ℤ
  | .exec g _ [I] [_, .int _ x, _] => if g = h ∧ I.opcode.kind = .call then some (lowSigned x) else none
  | _ => none

/-- Whether an event enters the first block of `main`. -/
def entersMain (M : Module) (main : Function) : Event D → Bool
  | .exec g b is _ => g == main.id && main.blocks.head?.map BasicBlock.id == some b && isFront M g b is
  | _ => false

/-- The numbers of terminators begun before each start of the function `h`, after the first `t`. -/
def startCounts (h : ℕ) : ℕ → List (Event D) → List ℕ
  | _, [] => []
  | t, e :: es => (if startsHandler h e then [t] else []) ++ startCounts h (t + (beginsTerminator h e).toNat) es

/-- **The report is right**: the function `h` runs once, and the number it prints is that of the blocks
entered, if that is below `2 ^ 63`. -/
structure ReportRight (M : Module) (h : ℕ) (es : List (Event D)) : Prop where
  once : es.countP (startsHandler h) = 1
  number : blocksEntered M h es < 2 ^ 63 →
    es.filterMap (printedNumber h) = [(blocksEntered M h es : ℤ)]

theorem terminatorsBegun_cons {h : ℕ} (e : Event D) (es : List (Event D)) :
    terminatorsBegun h (e :: es) = (beginsTerminator h e).toNat + terminatorsBegun h es := by
  rw [terminatorsBegun, List.countP_cons, Nat.add_comm]
  cases beginsTerminator h e <;> rfl

theorem startCounts_snoc {h : ℕ} (t : ℕ) (es : List (Event D)) (e : Event D) :
    startCounts h t (es ++ [e]) =
      startCounts h t es ++ if startsHandler h e then [t + terminatorsBegun h es] else [] := by
  induction es generalizing t with
  | nil => simp [startCounts, terminatorsBegun]
  | cons e' es ih =>
    rw [List.cons_append, startCounts, startCounts, ih, List.append_assoc, terminatorsBegun_cons,
      Nat.add_assoc]

theorem length_startCounts {h : ℕ} (t : ℕ) (es : List (Event D)) :
    (startCounts h t es).length = es.countP (startsHandler h) := by
  induction es generalizing t with
  | nil => rfl
  | cons e es ih =>
    rw [startCounts, List.length_append, ih, List.countP_cons, Nat.add_comm]
    cases startsHandler h e <;> rfl

/-- No count at a start is above the final one. -/
theorem le_of_mem_startCounts {h t n : ℕ} {es : List (Event D)} (hn : n ∈ startCounts h t es) :
    n ≤ t + terminatorsBegun h es := by
  induction es generalizing t with
  | nil => cases hn
  | cons e es ih =>
    rw [terminatorsBegun_cons]
    rw [startCounts, List.mem_append] at hn
    rcases hn with hn | hn
    · have hstart : n = t := by
        split at hn
        · exact List.mem_singleton.mp hn
        · cases hn
      omega
    · have hle := ih hn
      omega

/-- The handler shows a number as it is exactly when it fits in 31 bits. -/
theorem lowSigned_eq_iff {t n : ℕ} (ht : t ≤ n) :
    lowSigned (BitVec.ofNat 64 t) = (n : ℤ) ↔ n < 2 ^ 31 ∧ t = n := by
  have hlow : (BitVec.ofNat 64 t).setWidth 32 = BitVec.ofNat 32 t := by
    apply BitVec.eq_of_toNat_eq
    simp only [BitVec.toNat_setWidth, BitVec.toNat_ofNat]
    omega
  have hval : lowSigned (BitVec.ofNat 64 t) =
      if 2 * (t % 2 ^ 32) < 2 ^ 32 then ((t % 2 ^ 32 : ℕ) : ℤ) else ((t % 2 ^ 32 : ℕ) : ℤ) - 2 ^ 32 := by
    rw [lowSigned, hlow, BitVec.toInt_eq_toNat_cond, BitVec.toNat_ofNat]
    rfl
  rw [hval]
  constructor
  · intro h
    split at h <;> omega
  · intro ⟨hlt, heq⟩
    subst heq
    rw [if_pos (by omega)]
    omega

end Events

/-! ### The moves -/

/-- What the handler is still going to print. -/
def pending {D : DataOps} (h T : ℕ) : Control D → List ℤ
  | .exec fr => if fr.fn = h ∧ 2 ≤ fr.todo.length then [lowSigned (BitVec.ofNat 64 T)] else []
  | _ => []

/-- What one step does to the registrations of the function `h` and to what it prints. -/
structure Tally {D : DataOps} (M' : Module) (main : Function) (h T : ℕ) (s : State D) (e : Event D)
    (s' : State D) : Prop where
  registered : (entersMain M' main e).toNat + s.handlers.count h =
    s'.handlers.count h + (startsHandler h e).toNat
  printed : (printedNumber h e).toList ++ pending h (T + (beginsTerminator h e).toNat) s'.control =
    pending h T s.control ++ if startsHandler h e then [lowSigned (BitVec.ofNat 64 T)] else []

section Pending

variable {D : DataOps} {h T : ℕ}

theorem pending_program {c : Control D} (hc : ∀ fr, c = .exec fr → fr.fn ≠ h) : pending h T c = [] := by
  cases c with
  | exec fr => exact if_neg fun hfr => hc fr rfl hfr.1
  | _ => rfl

theorem pending_handler {fr : Frame D} (hfn : fr.fn = h) (ht : 2 ≤ fr.todo.length) :
    pending h T (.exec fr) = [lowSigned (BitVec.ofNat 64 T)] := if_pos ⟨hfn, ht⟩

theorem pending_returning {fr : Frame D} (ht : fr.todo.length < 2) : pending h T (.exec fr) = [] :=
  if_neg fun hfr => Nat.not_le.mpr ht hfr.2

/-- Another function prints nothing for the handler. -/
theorem printedNumber_other {g b : ℕ} {is : List Instruction} {vs : List (Val D.Data)} (hg : g ≠ h) :
    printedNumber h (.exec g b is vs : Event D) = none := by
  unfold printedNumber
  split
  · rename_i heq
    cases heq
    exact if_neg fun hfr => hg hfr.1
  · rfl

/-- The first block of `main` is entered by an instruction of `main`. -/
theorem entersMain_other {M' : Module} {main : Function} {g b : ℕ} {is : List Instruction}
    {vs : List (Val D.Data)} (hg : g ≠ main.id) :
    entersMain M' main (.exec g b is vs : Event D) = false := by
  simp [entersMain, hg]

/-- A step that concerns neither the registrations of the handler nor what it prints. -/
theorem tally_quiet {M' : Module} {main : Function} {s s' : State D} {e : Event D}
    (henters : entersMain M' main e = false) (hhs : s'.handlers.count h = s.handlers.count h)
    (hstart : startsHandler h e = false) (hprint : printedNumber h e = none)
    (hpending : pending h (T + (beginsTerminator h e).toNat) s'.control = pending h T s.control) :
    Tally M' main h T s e s' := by
  constructor
  · rw [henters, hstart, hhs, Bool.toNat_false, Nat.zero_add, Nat.add_zero]
  · rw [hprint, hpending, hstart]
    simp

end Pending

namespace Ready

variable {M : Module} {main : Function} (hM : Ready M main) {D : DataSem}
include hM

/-- **The first block of `main` begins with the registration.** -/
theorem isFront_main {b : ℕ} {is : List Instruction} (hb : main.blocks.head?.map BasicBlock.id = some b) :
    isFront (instrumented M main (counter M)) main.id b is =
      is.head?.any fun J => J.id == main.nextValue && J.opcode == .call atexitTy false := by
  obtain ⟨E, hE, rfl⟩ := Option.map_eq_some_iff.mp hb
  have hblock : M.block? main.id E.id = some E :=
    hM.wf.block?_of_mem hM.main_mem (List.mem_of_mem_head? hE)
  obtain ⟨K, -, hK⟩ := hM.block?_counted hM.main_lt hblock
  have hfront : frontInsts M main main.id E.id =
      [registerCall main.nextValue (atexitId M) (handlerId M)] := if_pos ⟨rfl, hb⟩
  rw [isFront, hK, Option.bind_some]
  show Option.any _ (K.insts main).head? = _
  rw [Counted.insts, hfront]
  rfl

/-- An event that enters the first block of `main` begins with the registration. -/
theorem entersMain_eq_false {g b : ℕ} {is : List Instruction} {vs : List (Val D.Data)}
    (hI : ∀ I ∈ is, g = main.id → ¬ (I.id = main.nextValue ∧ I.opcode = .call atexitTy false)) :
    entersMain (instrumented M main (counter M)) main (.exec g b is vs : Event D.toDataOps) = false := by
  by_contra henters
  have hall : entersMain (instrumented M main (counter M)) main
      (.exec g b is vs : Event D.toDataOps) = true := by simpa using henters
  simp only [entersMain, Bool.and_eq_true, beq_iff_eq] at hall
  obtain ⟨⟨hg, hb⟩, hfront⟩ := hall
  rw [hg, hM.isFront_main hb] at hfront
  obtain ⟨J, hJ, hsame⟩ := (Option.any_eq_true _ _).mp hfront
  rw [Bool.and_eq_true, beq_iff_eq, beq_iff_eq] at hsame
  exact hI J (List.mem_of_mem_head? hJ) hg hsame

/-- A step of the program leaves the registrations of the handler alone. -/
theorem count_handlers {s s' : State D.toDataOps} {a : Act D.toDataOps} {e : Event D.toDataOps}
    (hs : s.Clean (added M).Secret) (he : CleanEvent (added M).Secret e) (hshown : Shown M e)
    (h : (instrumented M main (counter M)).step s a = some (e, s')) :
    s'.handlers.count (handlerId M) = s.handlers.count (handlerId M) := by
  rcases step_registrations hM.erases_instrumented.aliasees hs he h with hsame | ⟨g, hg, hmore⟩ |
    ⟨g, rfl, hless⟩
  · rw [hsame]
  · rw [hmore, List.count_cons_of_ne (hM.ne_handler hg)]
  · have hne : g ≠ handlerId M := hshown
    rw [hless, List.count_cons_of_ne hne]

/-- An instruction of the program is not the registration. -/
theorem not_registration {g : ℕ} {I : Instruction} (hI : (added M).keeps g I.id = true)
    (hg : g = main.id) : I.id ≠ main.nextValue := by
  rw [hg, keeps_of_function? (hM.wf.function?_of_mem hM.main_mem)] at hI
  exact Nat.ne_of_lt (of_decide_eq_true hI)

/-- **What one move does** to the registrations and to what is printed. -/
theorem tally {T : ℕ} {s s' : State D.toDataOps} {a : Act D.toDataOps} {e : Event D.toDataOps}
    (hs : Tracked M main T s) (he : Allowed M e) (h : Move M main T s a e s') :
    Tally (instrumented M main (counter M)) main (handlerId M) T s e s' := by
  have hmain := hM.main_ne_handler
  cases h with
  | program herase hout hnext hstep hshown hks hfn =>
    have hclean := hM.cleanEvent_shown hs.counter.positioned he hshown hstep
    obtain ⟨-, hfn'⟩ := hM.step_program hs.clean hks hfn hclean hshown hstep
    refine tally_quiet ?_ (hM.count_handlers hs.clean hclean hshown hstep) ?_ ?_ ?_
    · cases e with
      | exec g b is vs =>
        refine hM.entersMain_eq_false fun I hI hg hsame => ?_
        exact hM.not_registration (hshown.2 I hI) hg hsame.1
      | _ => rfl
    · cases e with
      | handler g => exact beq_false_of_ne hshown
      | _ => rfl
    · cases e with
      | exec g b is vs => exact printedNumber_other hshown.1
      | _ => rfl
    · rw [pending_program hfn', pending_program hfn]
  | @register fr rest hc hfront hb hks ht =>
    have hfn : fr.fn ≠ handlerId M := hfront ▸ hmain
    have henters : entersMain (instrumented M main (counter M)) main
        (.exec fr.fn fr.block [registerCall main.nextValue (atexitId M) (handlerId M)]
          [.ptr (.global (handlerId M)) 0, .ptr (.global (atexitId M)) 0] : Event D.toDataOps) = true := by
      simp only [entersMain, hfront, hb, hM.isFront_main hb]
      simp [registerCall]
    constructor
    · rw [henters]
      show 1 + _ = (handlerId M :: s.handlers).count (handlerId M) + 0
      rw [List.count_cons_self]
      omega
    · have hafter : ∀ T', pending (handlerId M) T'
          (.exec ({ fr with todo := rest }.set main.nextValue (.int 32 0)) : Control D.toDataOps) = [] :=
        fun _ => if_neg fun hfr => hfn hfr.1
      have hbefore : pending (handlerId M) T (.exec fr : Control D.toDataOps) = [] :=
        if_neg fun hfr => hfn hfr.1
      rw [printedNumber_other hfn, hc, hbefore, hafter]
      rfl
  | @count fr n I rest vs v m hc hfn hks hI ht hdrop hv hm =>
    refine tally_quiet ?_ rfl rfl (printedNumber_other hfn) ?_
    · refine hM.entersMain_eq_false fun J hJ hg hsame => ?_
      rw [List.mem_singleton.mp hJ] at hsame
      simp only [countInsts, List.mem_cons, List.not_mem_nil, or_false] at hI
      rcases hI with rfl | rfl | rfl <;> cases hsame.2
    · rw [hc]
      have hbefore : pending (handlerId M) T (.exec fr : Control D.toDataOps) = [] :=
        if_neg fun hfr => hfn hfr.1
      rw [hbefore]
      exact if_neg fun hfr => hfn hfr.1
  | @report hs' hc hhs hks =>
    constructor
    · rw [hhs, List.count_cons_self]
      show 0 + _ = _ + (handlerId M == handlerId M).toNat
      rw [beq_self_eq_true, Bool.toNat_true, Nat.zero_add]
    · rw [hc]
      show [] ++ pending (handlerId M) (T + 0) (.exec (handlerFrame M main D) : Control D.toDataOps) =
        [] ++ if (handlerId M == handlerId M) = true then _ else _
      rw [if_pos (beq_self_eq_true _)]
      exact congrArg _ (pending_handler rfl (Nat.le_succ 2))
  | @load ks m hc hconts hks hm =>
    refine tally_quiet (entersMain_other hmain.symm) rfl rfl rfl ?_
    have hbefore : pending (handlerId M) T (.exec (handlerFrame M main D) : Control D.toDataOps) =
        [lowSigned (BitVec.ofNat 64 T)] := pending_handler rfl (Nat.le_succ 2)
    rw [hc, beginsTerminator_self, hbefore]
    exact pending_handler rfl (Nat.le_refl 2)
  | @print fr ks fmt hc hfn ht hconts hks =>
    constructor
    · rw [entersMain_other hmain.symm]
      exact Nat.zero_add _
    · have hprint : printedNumber (handlerId M) (.exec (handlerId M) fr.block [printCall M main]
          [fmt, .int 64 (BitVec.ofNat 64 T), .ptr (.global (printfId M main)) 0] : Event D.toDataOps) =
          some (lowSigned (BitVec.ofNat 64 T)) := if_pos ⟨rfl, rfl⟩
      have hlen : 2 ≤ fr.todo.length := by
        rw [ht]
        exact Nat.le_refl 2
      rw [hprint, hc, pending_handler hfn hlen]
      rfl
  | @printed fr ks v hc hconts hfn ht hks hv =>
    refine tally_quiet rfl rfl rfl rfl ?_
    rw [hc]
    refine pending_returning ?_
    show fr.todo.length < 2
    rw [ht]
    exact Nat.lt_succ_self 1
  | @done fr ks hc hfn ht hconts hks =>
    refine tally_quiet (entersMain_other hmain.symm) rfl rfl rfl ?_
    rw [hc, pending_returning (by rw [ht]; exact Nat.lt_succ_self 1)]
    rfl

end Ready

/-! ### The runs -/

/-- The registrations of the handler and what it printed, after the events `es`. -/
structure Reported (M : Module) (main : Function) {D : DataSem} (es : List (Event D.toDataOps))
    (s : State D.toDataOps) : Prop where
  tracked : Tracked M main (terminatorsBegun (handlerId M) es) s
  registrations : es.countP (entersMain (instrumented M main (counter M)) main) =
    s.handlers.count (handlerId M) + es.countP (startsHandler (handlerId M))
  printed : es.filterMap (printedNumber (handlerId M)) ++
      pending (handlerId M) (terminatorsBegun (handlerId M) es) s.control =
    (startCounts (handlerId M) 0 es).map fun t => lowSigned (BitVec.ofNat 64 t)

namespace Ready

variable {M : Module} {main : Function} (hM : Ready M main) (hX : External M) {D : DataSem}
include hM hX

theorem step_reported {es : List (Event D.toDataOps)} {s s' : State D.toDataOps} {a : Act D.toDataOps}
    {e : Event D.toDataOps} (hs : Reported M main es s) (he : Allowed M e)
    (h : (instrumented M main (counter M)).step s a = some (e, s')) : Reported M main (es ++ [e]) s' := by
  obtain ⟨hregistered, hprinted⟩ := hM.tally hs.tracked he (hM.move_cases hX hs.tracked he h)
  refine ⟨?_, ?_, ?_⟩
  · rw [terminatorsBegun_snoc]
    exact hM.step_tracked hX hs.tracked he h
  · have hcount : ∀ p : Event D.toDataOps → Bool, [e].countP p = (p e).toNat := by
      intro p
      rw [List.countP_singleton]
      cases p e <;> rfl
    have hbefore := hs.registrations
    rw [List.countP_append, List.countP_append, hcount, hcount]
    omega
  · have hlast : [e].filterMap (printedNumber (handlerId M)) = (printedNumber (handlerId M) e).toList := by
      cases hp : printedNumber (handlerId M) e with
      | none => exact List.filterMap_cons_none hp
      | some n => exact List.filterMap_cons_some hp
    rw [List.filterMap_append, hlast, List.append_assoc, terminatorsBegun_snoc, hprinted,
      ← List.append_assoc, hs.printed, startCounts_snoc, List.map_append, Nat.zero_add]
    split <;> rfl

/-- **What is registered and printed along a run.** -/
theorem run_reported {imports : ℕ → Option D.Content} {es : List (Event D.toDataOps)}
    {s : State D.toDataOps} (hs : Reached M (instrumented M main (counter M)) imports es s) :
    Reported M main es s :=
  Run.traceInvariant (Reported M main) (Allowed M)
    (fun _ _ _ _ _ hr he h => hM.step_reported hX hr he h) hs.run hs.allowed
    ⟨hM.tracked_init hs.outside, rfl, rfl⟩

/-- **At normal termination** every registration has been run, and every run has printed its number. -/
theorem reported_done {imports : ℕ → Option D.Content} {es : List (Event D.toDataOps)}
    {s : State D.toDataOps} (hs : Reached M (instrumented M main (counter M)) imports es s)
    (hend : s.control = .done true) :
    es.countP (entersMain (instrumented M main (counter M)) main) =
        es.countP (startsHandler (handlerId M)) ∧
      es.filterMap (printedNumber (handlerId M)) =
        (startCounts (handlerId M) 0 es).map fun t => lowSigned (BitVec.ofNat 64 t) := by
  obtain ⟨-, hregistrations, hprinted⟩ := hM.run_reported hX hs
  have hnil : s.handlers = [] := by
    have hrun := hs.run
    cases hrun with
    | nil => rfl
    | snoc _ hstep => exact handlers_of_done hstep hend
  rw [hnil, List.count_nil, Nat.zero_add] at hregistrations
  rw [hend] at hprinted
  refine ⟨hregistrations, ?_⟩
  rw [← hprinted]
  exact (List.append_nil _).symm

end Ready

/-- Whether a program has terminated normally. -/
def isDone {D : DataOps} : Control D → Bool
  | .done true => true
  | _ => false

theorem eq_of_isDone {D : DataOps} {c : Control D} (h : isDone c = true) : c = .done true := by
  cases c with
  | done normal =>
    cases normal with
    | true => rfl
    | false => cases h
  | _ => cases h

/-- What a run of an instrumented program shows of the report. -/
def reportOf (M : Module) (main : Function) (as : List (Act wordSem.toDataOps)) :
    Option (Bool × Bool × ℕ × ℕ × List ℤ) :=
  (instrumentedRun M main as).map fun r => (r.1.all (harmless M), isDone r.2.control,
    r.1.countP (startsHandler (handlerId M)),
    blocksEntered (instrumented M main (counter M)) (handlerId M) r.1,
    r.1.filterMap (printedNumber (handlerId M)))

/-- A run that terminates normally, with what it shows of the report. -/
theorem exists_reached {M : Module} {main : Function} {as : List (Act wordSem.toDataOps)} {n k : ℕ}
    {ps : List ℤ} (h : reportOf M main as = some (true, true, n, k, ps)) :
    ∃ es s, instrumentedRun M main as = some (es, s) ∧
      Reached (D := wordSem) M (instrumented M main (counter M)) (fun _ => none) es s ∧
      s.control = .done true ∧ es.countP (startsHandler (handlerId M)) = n ∧
      blocksEntered (instrumented M main (counter M)) (handlerId M) es = k ∧
      es.filterMap (printedNumber (handlerId M)) = ps := by
  obtain ⟨⟨es, s⟩, hr, hshows⟩ := Option.map_eq_some_iff.mp h
  simp only [Prod.mk.injEq] at hshows
  obtain ⟨hes, hdone, hstarts, hentered, hprinted⟩ := hshows
  exact ⟨es, s, hr, reached_of_instrumentedRun hr hes, eq_of_isDone hdone, hstarts, hentered, hprinted⟩

/-- The report is right exactly when every terminator was begun by the time the one start of the handler came. -/
theorem Ready.reportRight_counts {M : Module} {main : Function} {D : DataSem} {imports : ℕ → Option D.Content}
    {es : List (Event D.toDataOps)} {s : State D.toDataOps} (hM : Ready M main) (hX : External M)
    (hs : Reached M (instrumented M main (counter M)) imports es s) (hend : s.control = .done true) :
    ReportRight (instrumented M main (counter M)) (handlerId M) es ↔
      es.countP (entersMain (instrumented M main (counter M)) main) = 1 ∧
      (blocksEntered (instrumented M main (counter M)) (handlerId M) es < 2 ^ 63 →
        blocksEntered (instrumented M main (counter M)) (handlerId M) es < 2 ^ 31 ∧
        ∀ t ∈ startCounts (handlerId M) 0 es,
          t = blocksEntered (instrumented M main (counter M)) (handlerId M) es) := by
  obtain ⟨honce, hprinted⟩ := hM.reported_done hX hs hend
  have hentered := run_entered (h := handlerId M) hM.terminatorsLast_instrumented hs.run
  -- with one start there is one number, and it is at most that of the blocks entered
  have hone : es.countP (startsHandler (handlerId M)) = 1 → ∃ t, startCounts (handlerId M) 0 es = [t] ∧
      t ≤ blocksEntered (instrumented M main (counter M)) (handlerId M) es := by
    intro hcount
    rw [← length_startCounts 0] at hcount
    obtain ⟨t, ht⟩ := List.length_eq_one_iff.mp hcount
    have hle : t ≤ 0 + terminatorsBegun (handlerId M) es :=
      le_of_mem_startCounts (by rw [ht]; exact List.mem_singleton_self t)
    exact ⟨t, ht, by omega⟩
  constructor
  · intro ⟨hstart, hnumber⟩
    obtain ⟨t, ht, hle⟩ := hone hstart
    refine ⟨honce.trans hstart, fun hsmall => ?_⟩
    have hshown := hnumber hsmall
    rw [hprinted, ht, List.map_singleton, List.cons.injEq] at hshown
    obtain ⟨hlt, heq⟩ := (lowSigned_eq_iff hle).mp hshown.1
    refine ⟨hlt, fun t' ht' => ?_⟩
    rw [ht, List.mem_singleton] at ht'
    rw [ht', heq]
  · intro ⟨hmain, hnumber⟩
    have hstart := honce.symm.trans hmain
    obtain ⟨t, ht, hle⟩ := hone hstart
    refine ⟨hstart, fun hsmall => ?_⟩
    obtain ⟨hlt, hall⟩ := hnumber hsmall
    have heq := hall t (by rw [ht]; exact List.mem_singleton_self t)
    rw [hprinted, ht, List.map_singleton, (lowSigned_eq_iff hle).mpr ⟨hlt, heq⟩]

/-- The handler is started, loads the counter, prints it and returns. -/
def reportActs : List (Act wordSem.toDataOps) := [.runHandler, .tick, .tick, .ret (.int 32 0), .tick]

/-- `main` is run and returns, and the handler reports. -/
def returnActs : List (Act wordSem.toDataOps) :=
  [.runMain [], .tick, .tick, .tick, .tick, .tick, .tick] ++ reportActs ++ [.finish]

/-! ### A program that calls -/

/-- `int main() { f(); return 0; }`. -/
def callMain : Function :=
  ⟨0, "main", ⟨.i32, [], false⟩, .external, ⟨[], []⟩, false, 0, none, none, none, none,
    [⟨0, "entry", [⟨0, .call ⟨.i32, [], false⟩ false, .i32,
        [.const (.global 1 .function (FunctionType.ptrTy ⟨.i32, [], false⟩))], false⟩,
      ⟨1, .ret, .void, [.const (.int 32 0)], false⟩]⟩], 2, 1⟩

/-- `int f();`. -/
def callee : Function :=
  ⟨1, "f", ⟨.i32, [], false⟩, .external, ⟨[], []⟩, false, 0, none, none, none, none, [], 0, 0⟩

/-- A program that calls an external function. -/
def callModule : Module := ⟨[callMain, callee], [], [], [], [], 2, 0⟩

theorem ready_callModule : Ready callModule callMain where
  wf := Module.Verified.wellFormed (by decide)
  mainFn := rfl
  defined := rfl
  noCounter := by decide
  noHandler := by decide
  printf V hV := by cases hV
  atexit V hV := by cases hV

/-- `main` is run, and `f` calls `exit`. -/
def exitActs : List (Act wordSem.toDataOps) :=
  [.runMain [], .tick, .tick, .exit] ++ reportActs ++ [.finish]

/-- `main` is run, and `f` calls `main`, in which `f` returns. -/
def twiceActs : List (Act wordSem.toDataOps) :=
  [.runMain [], .tick, .tick, .callback 0 [], .tick, .tick, .ret (.int 32 0), .tick, .tick, .tick, .tick,
    .ret (.int 32 0), .tick, .tick, .tick, .tick] ++ reportActs ++ reportActs ++ [.finish]

/-- **A block left by `exit()` is not counted, and a `main` entered twice reports twice.** -/
theorem reportRight_callModule : Ready callModule callMain ∧ External callModule ∧
    ∃ M' H, runOnModule callModule = .ok M' ∧ M'.getFunction atexitCallStr = some H ∧
      (∃ es s, Reached (D := wordSem) callModule M' (fun _ => none) es s ∧ s.control = .done true ∧
        blocksEntered M' H.id es = 1 ∧ es.filterMap (printedNumber H.id) = [0] ∧
        ¬ ReportRight M' H.id es) ∧
      ∃ es s, Reached (D := wordSem) callModule M' (fun _ => none) es s ∧ s.control = .done true ∧
        es.countP (startsHandler H.id) = 2 ∧ ¬ ReportRight M' H.id es := by
  have hX : External callModule := External.of_absent rfl rfl
  have hid : (handlerFn callModule callMain).id = handlerId callModule :=
    ready_callModule.handlerDecl_id
  refine ⟨ready_callModule, hX, _, _, ready_callModule.runOnModule,
    ready_callModule.getFunction_instrumented, ?_, ?_⟩
  · have hreport : reportOf callModule callMain exitActs = some (true, true, 1, 1, [0]) := by rfl
    obtain ⟨es, s, -, hreached, hdone, -, hentered, hprinted⟩ := exists_reached hreport
    rw [hid]
    refine ⟨es, s, hreached, hdone, hentered, hprinted, ?_⟩
    intro hright
    have hnumber := hright.number
    rw [hentered, hprinted] at hnumber
    have hzero := hnumber (by decide)
    cases hzero
  · have hreport : reportOf callModule callMain twiceActs = some (true, true, 2, 2, [2, 2]) := by rfl
    obtain ⟨es, s, -, hreached, hdone, hstarts, -⟩ := exists_reached hreport
    rw [hid]
    refine ⟨es, s, hreached, hdone, hstarts, ?_⟩
    intro hright
    have hone := hright.once
    rw [hstarts] at hone
    cases hone

end SnippetsLlvm.CountBB
