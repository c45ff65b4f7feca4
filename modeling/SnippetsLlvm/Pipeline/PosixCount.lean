import SnippetsLlvm.CountBB.SourceBlocks
import SnippetsLlvm.PosixMain.Runs

/-!
# `posix-main`, then `count-bb`

The two transformations in one run of the compiler: `main` gets its two parameters first, and the module with
the new `main` is then counted.  What the first leaves is what the second asks for, and the two readings of
runs compose.

* `Posixable`, `Pipeable` — the modules that go through both;
* `ready_replaced` — **the module with the new `main` can be counted**;
* `source` — what remains of a run of the result: without the inserted code, under the old `main`;
* `RunsThrough` — the runs of the result are the runs of the source, and the report is about the source;
* `posixize_then_count` — **both passes succeed, and so do their readings**.
-/

namespace SnippetsLlvm.Pipeline

open SnippetsLlvm.Ir SnippetsLlvm.Library SnippetsLlvm.PosixMain SnippetsLlvm.CountBB

/-! ### The modules that go through -/

/-- A module that can be instrumented, whose `main` has no parameters and can be moved. -/
structure Posixable (M : Module) (main : Function) : Prop extends Ready M main where
  params : main.type.params = []
  movable : Movable M main

/-- Besides, the program leaves `printf` and `atexit` to the library, and no function has code that counting would
break. -/
structure Pipeable (M : Module) (main : Function) : Prop extends Posixable M main where
  external : External M
  countable : ∀ F ∈ M.functions, Countable F

/-- A `main` without parameters, uses and calls by `invoke`, which runs alike as another function. -/
structure Moves (M : Module) (main : Function) : Prop where
  wf : M.WellFormed
  mainFn : M.getFunction "main" = some main
  params : main.type.params = []
  noInvoke : ∀ I ∈ main.insts, ∀ ft, I.opcode ≠ .invoke ft
  unused : Unused M main

/-- Without pads there is nowhere for an `invoke` to unwind to. -/
theorem noInvoke_of_noPads {M : Module} {F : Function} (hF : F.WellFormed M)
    (hpads : ∀ I ∈ F.insts, I.needsPersonality = false) : ∀ I ∈ F.insts, ∀ ft, I.opcode ≠ .invoke ft := by
  intro I hI ft hop
  obtain ⟨B, hB, -, J, hJ, hpad⟩ := hF.unwindDests I hI ⟨ft, hop⟩
  rw [Instruction.isEHPad_of_needsPersonality (hpads J (List.mem_flatMap_of_mem hB hJ))] at hpad
  cases hpad

theorem Posixable.moves {M : Module} {main : Function} (hM : Posixable M main) : Moves M main :=
  ⟨hM.wf, hM.mainFn, hM.params,
    noInvoke_of_noPads (hM.wf.functions main (PosixMain.main_mem hM.mainFn)) hM.movable.noPads, hM.movable.unused⟩

/-- The first pass succeeds. -/
theorem Moves.posixizeMain {M : Module} {main : Function} (hM : Moves M main) (identifier : String) :
    posixizeMain M identifier = .ok ⟨[], true, replaced M main⟩ := by
  have hunused := (hasUses_replaced hM.wf hM.mainFn).mpr hM.unused
  rw [posixizeMain_eq hM.mainFn hM.params, replaceMain_eq hM.wf hM.mainFn hM.params, hunused]
  rfl

/-- The globals no one but the passes knows: `main`, whose address is nowhere taken, and all new ones. -/
def Unknown (M : Module) (main : Function) (g : ℕ) : Prop := g = main.id ∨ M.nextGlobal ≤ g

namespace Posixable

variable {M : Module} {main : Function} (hM : Posixable M main)
include hM

/-- A name other than `main` finds nothing new. -/
theorem found_before {n : String} {V : GlobalValue} (hn : n ≠ "main") (hempty : n ≠ "")
    (hV : (replaced M main).getNamedValue n = some V) : M.getNamedValue n = some V := by
  have hmem := (replaced_perm_others M main).mem_iff.mp (Module.mem_of_getNamedValue hV)
  have hname := Module.name_of_getNamedValue hV
  rcases List.mem_cons.mp hmem with rfl | hmem
  · exact absurd hname.symm hn
  · have hold := mem_of_mem_others hM.wf hM.mainFn hmem
    rw [← hname]
    refine Module.getNamedValue_of_mem hM.wf.names hold ?_
    rw [hname]
    exact hempty

theorem okSymbol_replaced {n : String} {ty : FunctionType} (hn : n ≠ "main") (hempty : n ≠ "")
    (h : OkSymbol M n ty) : OkSymbol (replaced M main) n ty :=
  fun V hV => h V (hM.found_before hn hempty hV)

/-- **The module with the new `main` can be counted.** -/
theorem ready_replaced : Ready (replaced M main) (newMain M main) where
  wf := replaced_wellFormed hM.wf hM.mainFn hM.params hM.movable
  mainFn := getFunction_replaced hM.wf hM.mainFn
  defined := hM.defined
  noCounter h := hM.noCounter ((names_perm hM.wf hM.mainFn).mem_iff.mp h)
  noHandler h := hM.noHandler ((names_perm hM.wf hM.mainFn).mem_iff.mp h)
  printf := hM.okSymbol_replaced (by decide) (by decide) hM.printf
  atexit := hM.okSymbol_replaced (by decide) (by decide) hM.atexit

end Posixable

namespace Pipeable

variable {M : Module} {main : Function} (hM : Pipeable M main)
include hM

theorem external_replaced : External (replaced M main) where
  printf F hF := hM.external.printf F (Module.getFunction_eq_some.mpr
    (hM.found_before (by decide) (by decide) (Module.getFunction_eq_some.mp hF)))
  atexit F hF := hM.external.atexit F (Module.getFunction_eq_some.mpr
    (hM.found_before (by decide) (by decide) (Module.getFunction_eq_some.mp hF)))

/-- The new `main` has the code of the old one. -/
theorem countable_replaced : ∀ F ∈ (replaced M main).functions, Countable F := by
  intro F hF
  rcases mem_functions_replaced.mp hF with ⟨hold, -⟩ | rfl
  · exact hM.countable F hold
  · intro _ I hI
    have hmem : main ∈ M.functions := PosixMain.main_mem hM.mainFn
    refine hM.countable main hmem ?_ I hI
    rw [PosixMain.main_name hM.mainFn]
    decide

/-- The result is well-formed. -/
theorem wellFormed_counted :
    (instrumented (replaced M main) (newMain M main) (counter (replaced M main))).WellFormed :=
  (instrumented_wellFormed_iff hM.ready_replaced.wf hM.ready_replaced.setupCond
    hM.ready_replaced.getGlobalVariable_counter (counter_valueType _)).mpr hM.countable_replaced

end Pipeable

/-! ### What the environment does not know -/

section Environment

variable {D : DataSem}

/-- An environment that knows less is outside for more. -/
theorem outside_of_subset {S T : ℕ → Prop} (hsub : ∀ g, S g → T g) {a : Act D.toDataOps} (h : Outside T a) :
    Outside S a := by
  have hval : ∀ {v : Val D.Data}, v.Avoids T → v.Avoids S := fun hv g hg => hv g (hsub g hg)
  cases a with
  | ret v => exact hval h
  | throw v => exact hval h
  | callback g args => exact ⟨fun hg => h.1 (hsub g hg), fun v hv => hval (h.2 v hv)⟩
  | write eff =>
    refine ⟨fun o ho => h.1 o ?_, fun o c heff g hg => h.2 o c heff g (hsub g hg)⟩
    cases o with
    | global g => exact hsub g ho
    | dyn n => exact ho
  | malloc c => exact fun g hg => h g (hsub g hg)
  | runMain args => exact fun v hv => hval (h v hv)
  | _ => trivial

theorem fromOutside_of_subset {S T : ℕ → Prop} (hsub : ∀ g, S g → T g) {e : Event D.toDataOps}
    (h : FromOutside T e) : FromOutside S e := by
  cases e with
  | act caller a => exact outside_of_subset hsub h
  | _ => trivial

/-- What the environment may do: it does not know the new addresses nor that of `main`, and from the call the
function `h` makes it only returns. -/
def Permitted (M : Module) (main : Function) (h : ℕ) (e : Event D.toDataOps) : Prop :=
  FromOutside (Unknown M main) e ∧ ∀ a, e = .act (some h) a → ∃ v, a = .ret v

variable {M : Module} {main : Function}

theorem unknown_of_moved {g : ℕ} (hg : (moved M main).Secret g) : Unknown M main g := by
  have hor : g = main.id ∨ g = M.nextGlobal := by simpa [Erasure.Secret, moved] using hg
  exact hor.imp id fun heq => Nat.le_of_eq heq.symm

theorem unknown_of_added {g : ℕ} (hg : (added (replaced M main)).Secret g) : Unknown M main g := by
  have hle : (replaced M main).nextGlobal ≤ g := secret_iff.mp hg
  exact .inr (Nat.le_of_succ_le hle)

theorem permitted_of_allowed {e : Event D.toDataOps} (hallowed : Allowed (replaced M main) e)
    (hout : FromOutside (Unknown M main) e) : Permitted M main (handlerId (replaced M main)) e := by
  refine ⟨hout, ?_⟩
  rintro a rfl
  exact hallowed.2 rfl

theorem Permitted.allowed {e : Event D.toDataOps}
    (h : Permitted M main (handlerId (replaced M main)) e) : Allowed (replaced M main) e := by
  cases e with
  | act caller a =>
    refine ⟨outside_of_subset (fun _ => unknown_of_added) h.1, fun hcaller => h.2 a ?_⟩
    rw [hcaller]
  | _ => trivial

end Environment

/-! ### The runs of a moved `main` -/

section Moved

variable {M : Module} {main : Function} (hM : Moves M main) {D : DataSem}
include hM

omit hM in
/-- A frame that waits at an `invoke` stands in a block that has one. -/
theorem indifferent_of_positioned {N : Module} {F : Function} {g : ℕ} (hF : N.function? g = some F)
    (hinvoke : ∀ I ∈ F.insts, ∀ ft, I.opcode ≠ .invoke ft) {s : State D.toDataOps} (hs : Positioned N s) :
    indifferent main g s = true := by
  have hnot : reachesInvoke g s = false := by
    rw [reachesInvoke.eq_def]
    split
    · rename_i exn fr site ks _ hconts
      by_cases hfn : fr.fn = g
      · obtain ⟨B, hB, pre, hpre⟩ := hs.conts fr site (by rw [hconts]; exact List.mem_cons_self)
        rw [hfn, Module.block?, hF, Option.bind_some] at hB
        have hsite : site ∈ F.insts := List.mem_flatMap_of_mem (List.mem_of_find?_eq_some hB)
          (by rw [hpre]; exact List.mem_append_right _ List.mem_cons_self)
        have hno := hinvoke site hsite
        split
        · rename_i ft hop
          exact absurd hop (hno ft)
        · exact Bool.and_false _
      · simp [hfn]
    · rfl
  simp [indifferent, hnot]

omit hM in
variable (main) in
/-- In a run of a program whose function `g` has no `invoke`, no personality of that function matters. -/
theorem run_indifferent {N : Module} {F : Function} {g : ℕ} (hF : N.function? g = some F)
    (hinvoke : ∀ I ∈ F.insts, ∀ ft, I.opcode ≠ .invoke ft) {imports : ℕ → Option D.Content}
    {es : List (Event D.toDataOps)} {s : State D.toDataOps} (hrun : Run N.step (N.initState imports) es s) :
    Run (restrict (indifferent main g) N.step) (N.initState imports) es s :=
  (hrun.restricted (Positioned N) (fun _ _ _ _ hs hstep => step_positioned hs hstep)
    (fun _ hs => indifferent_of_positioned hF hinvoke hs) (initState_positioned _ _)).1

/-- A run of the module with the new `main` is read as one of the source. -/
theorem run_moved {imports : ℕ → Option D.Content}
    (himports : ∀ g c, imports g = some c → ContentAvoids (moved M main).Secret c)
    {es : List (Event D.toDataOps)} {s : State D.toDataOps}
    (hrun : Run (replaced M main).step ((replaced M main).initState imports) es s)
    (hes : ∀ e ∈ es, FromOutside (moved M main).Secret e) :
    Run M.step (M.initState imports) (es.map ((moved M main).event M.nextGlobal)) ((moved M main).state s) := by
  have hsettled := settled_init hM.wf hM.unused himports
  have hcalm := run_indifferent main (function?_replaced_new hM.wf) hM.noInvoke hrun
  have h := ((refines_replaced hM.wf hM.mainFn hM.params hM.unused).run hcalm hes hsettled).2
  rwa [List.filterMap_eq_map', state_init hM.wf hM.mainFn] at h

/-- A run of the source is one of the module with the new `main`. -/
theorem lift_moved {imports : ℕ → Option D.Content}
    (himports : ∀ g c, imports g = some c → ContentAvoids (moved M main).Secret c)
    {as : List (Val D.Data)} (has : ∀ v ∈ as, v.Avoids (moved M main).Secret)
    {fs : List (Event D.toDataOps)} {t : State D.toDataOps} (hrun : Run M.step (M.initState imports) fs t)
    (hfs : ∀ e ∈ fs, FromOutside (moved M main).Secret e ∧ StartsWith [] e) :
    ∃ es s, Run (replaced M main).step ((replaced M main).initState imports) es s ∧
      (∀ e ∈ es, StartsWith as e) ∧ es.map ((moved M main).event M.nextGlobal) = fs ∧
      (moved M main).state s = t := by
  have hsettled := settled_init hM.wf hM.unused himports
  have hcalm := run_indifferent main (hM.wf.function?_of_mem (PosixMain.main_mem hM.mainFn)) hM.noInvoke
    hrun
  rw [← state_init hM.wf hM.mainFn] at hcalm
  obtain ⟨es, s, hrun', hstart, hread, hstate, -⟩ :=
    (lifts_replaced hM.wf hM.mainFn hM.params hM.unused has).run hcalm hfs hsettled
  rw [List.filterMap_eq_map'] at hread
  exact ⟨es, s, hrun', hstart, hread, hstate⟩

omit hM in
/-- An action of the source from outside is one of the result, whatever `main` is started with. -/
theorem fromOutside_moved {S : ℕ → Prop} {as : List (Val D.Data)} (has : ∀ v ∈ as, v.Avoids S)
    {e : Event D.toDataOps} (he : FromOutside S ((moved M main).event M.nextGlobal e)) (hstart : StartsWith as e) :
    FromOutside S e := by
  cases e with
  | act caller a =>
    cases a with
    | runMain as' =>
      have heq : as' = as := hstart
      subst heq
      exact has
    | _ => exact he
  | _ => trivial

/-- The block a frame of the new module is in is one of the source. -/
theorem block?_moved {g b : ℕ} (hg : g ≠ main.id) :
    (replaced M main).block? g b = M.block? ((moved M main).fn g) b := by
  have hshown : (moved M main).hidesFn g = false := by simpa [moved] using hg
  have hcode := (erases_replaced hM.wf hM.mainFn hM.params hM.unused).code g hshown
  rw [Module.block?, Module.block?]
  generalize (replaced M main).function? g = F', M.function? ((moved M main).fn g) = F at hcode ⊢
  cases hcode with
  | none => rfl
  | @some F' F hsame =>
    rw [Option.bind_some, Option.bind_some]
    refine (Function.block?_congr ?_ b).symm
    have hkeep : ∀ B : BasicBlock, (moved M main).block F'.id B = B := by
      intro B
      show { B with insts := B.insts.filter fun _ => true } = B
      rw [List.filter_true]
    rw [hsame.blocks, funext hkeep]
    exact List.map_id _

omit hM in
/-- Another function than `main` keeps its identity. -/
theorem fn_moved {g h : ℕ} (hnew : h ≠ M.nextGlobal) (hold : h ≠ main.id) :
    (moved M main).fn g = h ↔ g = h := by
  show (if g = M.nextGlobal then main.id else g) = h ↔ _
  split <;> omega

omit hM in
/-- The run of the source begins the same terminators. -/
theorem terminatorsBegun_moved {h : ℕ} (hnew : h ≠ M.nextGlobal) (hold : h ≠ main.id) (es : List (Event D.toDataOps)) :
    terminatorsBegun h (es.map ((moved M main).event M.nextGlobal)) = terminatorsBegun h es := by
  rw [terminatorsBegun, terminatorsBegun, List.countP_map]
  refine List.countP_congr fun e _ => ?_
  cases e with
  | exec g b is vs =>
    show (decide ((moved M main).fn g ≠ h) && is.any Instruction.isTerminator) = true ↔
      (decide (g ≠ h) && is.any Instruction.isTerminator) = true
    rw [decide_eq_decide.mpr (not_congr (fn_moved hnew hold))]
  | _ => exact Iff.rfl

section Events

variable {imports : ℕ → Option D.Content} {es : List (Event D.toDataOps)} {s : State D.toDataOps}
  (hrun : Run (replaced M main).step ((replaced M main).initState imports) es s)
include hrun

/-- The old `main` does not run. -/
theorem ne_main_of_exec {g b : ℕ} {is : List Instruction} {vs : List (Val D.Data)} (he : .exec g b is vs ∈ es) :
    g ≠ main.id := by
  obtain ⟨B, hB⟩ := Run.exec_block hrun he
  exact fn_ne_main hM.wf hM.mainFn hB

/-- **The run of the source enters the same blocks.** -/
theorem blocksEntered_moved {h : ℕ} (hnew : h ≠ M.nextGlobal) (hold : h ≠ main.id) :
    blocksEntered (replaced M main) h es =
      blocksEntered M h (es.map ((moved M main).event M.nextGlobal)) := by
  rw [blocksEntered, blocksEntered, List.countP_map]
  refine List.countP_congr fun e he => ?_
  cases e with
  | exec g b is vs =>
    have hg := ne_main_of_exec hM hrun he
    show (decide (g ≠ h) && isFront _ g b is) = true ↔
      (decide ((moved M main).fn g ≠ h) && isFront M ((moved M main).fn g) b is) = true
    rw [isFront, isFront, block?_moved hM hg, decide_eq_decide.mpr (not_congr (fn_moved hnew hold))]
  | _ => exact Iff.rfl

/-- The new `main` is entered when the old one is. -/
theorem entersMain_moved {e : Event D.toDataOps} (he : e ∈ es) :
    entersMain M main ((moved M main).event M.nextGlobal e) = entersMain (replaced M main) (newMain M main) e := by
  cases e with
  | exec g b is vs =>
    have hg := ne_main_of_exec hM hrun he
    have hiff : (moved M main).fn g = main.id ↔ g = M.nextGlobal := by
      show (if g = M.nextGlobal then main.id else g) = main.id ↔ _
      split
      · rename_i heq
        exact iff_of_true rfl heq
      · rename_i hne
        exact iff_of_false hg hne
    show ((moved M main).fn g == main.id && main.blocks.head?.map BasicBlock.id == some b &&
        isFront M ((moved M main).fn g) b is) =
      (g == M.nextGlobal && main.blocks.head?.map BasicBlock.id == some b && isFront (replaced M main) g b is)
    rw [isFront, isFront, block?_moved hM hg, Bool.eq_iff_iff]
    simp only [Bool.and_eq_true, beq_iff_eq, hiff]
  | _ => rfl

end Events

omit hM in
/-- Entering `main` is told by its identity and that of its first block. -/
theorem entersMain_congr {main' : Function} (hid : main'.id = main.id)
    (hheads : main'.blocks.head?.map BasicBlock.id = main.blocks.head?.map BasicBlock.id) :
    entersMain (D := D.toDataOps) M main' = entersMain M main := by
  funext e
  cases e with
  | exec g b is vs =>
    show (g == main'.id && main'.blocks.head?.map BasicBlock.id == some b && isFront M g b is) = _
    rw [hid, hheads]
    rfl
  | _ => rfl

end Moved

/-! ### The counted program in its environment -/

section Counted

variable {M : Module} {main : Function} (hM : Ready M main) (hX : External M) {D : DataSem}
include hM hX

/-- **The inserted code can go on without the environment** doing more than let `printf` return. -/
theorem progress_permitted (S : ℕ → Prop) (as : List (Val D.Data)) {T : ℕ} {s : State D.toDataOps}
    (hs : Tracked M main T s) : ProgramNext M s ∨
    ∃ a e s', (instrumented M main (counter M)).step s a = some (e, s') ∧
      (Allowed M e ∧ FromOutside S e ∧ StartsWith as e) ∧ original M e = none := by
  rcases hM.progress hX hs with hnext | ⟨a, e, s', hstep, he, hsilent⟩
  · exact .inl hnext
  · apply Or.inr
    cases e with
    | act caller b =>
      -- what comes back to the handler is left to the environment, so it may as well be nothing
      cases hM.move_cases hX hs he hstep with
      | program _ _ _ _ hshown =>
        rw [original_eq_some hshown] at hsilent
        cases hsilent
      | printed hc hconts hfn =>
        exact ⟨_, _, _, Ready.step_printed (v := .void) hc hconts, ⟨⟨avoids_void, fun _ => ⟨_, rfl⟩⟩, avoids_void, trivial⟩,
          original_eq_none fun h => h (congrArg some hfn)⟩
    | _ => exact ⟨a, _, s', hstep, ⟨he, trivial, trivial⟩, hsilent⟩

/-- **The steps of the source are made by the counted program** in every environment that permits them. -/
theorem lifts_permitted (S : ℕ → Prop) (as : List (Val D.Data)) :
    Lifts ((instrumented M main (counter M)).step (D := D.toDataOps)) M.step (view M) (original M)
      (fun s => ∃ T, Tracked M main T s) (fun e => Allowed M e ∧ FromOutside S e ∧ StartsWith as e)
      (fun e => FromOutside (added M).Secret e ∧ FromOutside S e ∧ StartsWith as e) := by
  have hdesc : Descends ((instrumented M main (counter M)).step (D := D.toDataOps)) (original M)
      (fun s => ∃ T, Tracked M main T s) (fun e => Allowed M e ∧ FromOutside S e ∧ StartsWith as e) (delay M) :=
    fun s a e s' hs he => hM.descends_instrumented hX s a e s' hs he.1
  have href : Refines ((instrumented M main (counter M)).step (D := D.toDataOps)) M.step (view M) (original M)
      (fun s => ∃ T, Tracked M main T s) (fun e => Allowed M e ∧ FromOutside S e ∧ StartsWith as e) :=
    fun s a e s' hs he => hM.refines_instrumented hX s a e s' hs he.1
  refine Lifts.of_ready hdesc href (fun s ⟨T, hs⟩ => progress_permitted hM hX S as hs) ?_
  intro s a e t ⟨T, hs⟩ hnext he hstep
  obtain ⟨b, e', s', hstep', hallowed, hshown, hview⟩ := hM.matched hs hnext he.1 hstep
  refine ⟨b, e', s', hstep', ⟨hallowed, ?_⟩, hshown, hview⟩
  rw [← eq_of_original hshown] at he
  exact he.2

end Counted

/-! ### Runs -/

section Runs

variable (M : Module) (main : Function) {D : DataSem}

/-- What remains of a run of the result: the inserted code is left out, and the new `main` is the old one. -/
def source (es : List (Event D.toDataOps)) : List (Event D.toDataOps) :=
  (es.filterMap (original (replaced M main))).map ((moved M main).event M.nextGlobal)

/-- What remains of a state of the result. -/
def sourceState (s : State D.toDataOps) : State D.toDataOps :=
  (moved M main).state (view (replaced M main) s)

/-- **The runs of `M''` are the runs of `M`**, for all arguments of `main`, and what the report of an orderly run
shows is the number of blocks the run of `M` enters. -/
structure RunsThrough (M'' : Module) (N H : Function) : Prop where
  old : ∀ (D : DataSem) (imports : ℕ → Option D.Content),
    (∀ g c, imports g = some c → ContentAvoids (D := D) (Unknown M main) c) →
    ∀ es s, Run M''.step (M''.initState imports) es s → (∀ e ∈ es, Permitted M main H.id e) →
      Run M.step (M.initState imports) (source M main es) (sourceState M main s)
  new : ∀ (D : DataSem) (imports : ℕ → Option D.Content),
    (∀ g c, imports g = some c → ContentAvoids (D := D) (Unknown M main) c) →
    ∀ argc argv : Val D.Data, argc.Avoids (Unknown M main) → argv.Avoids (Unknown M main) →
    ∀ fs t, Run M.step (M.initState imports) fs t →
      (∀ e ∈ fs, FromOutside (Unknown M main) e ∧ StartsWith [] e) →
      ∃ es s, Run M''.step (M''.initState imports) es s ∧
        (∀ e ∈ es, Permitted M main H.id e ∧ StartsWith [argc, argv] e) ∧ source M main es = fs ∧
        sourceState M main s = t
  report : ∀ (D : DataSem) (imports : ℕ → Option D.Content),
    (∀ g c, imports g = some c → ContentAvoids (D := D) (Unknown M main) c) →
    ∀ es s, Run M''.step (M''.initState imports) es s → (∀ e ∈ es, Permitted M main H.id e) →
      s.control = .done true → Orderly M'' N H.id imports es s → blocksEntered M H.id (source M main es) < 2 ^ 31 →
      es.filterMap (printedNumber H.id) = [(blocksEntered M H.id (source M main es) : ℤ)]

variable {M main} (hM : Pipeable M main)
include hM

/-- The module with the new `main`, counted. -/
abbrev movedFirst (M : Module) (main : Function) : Module :=
  instrumented (replaced M main) (newMain M main) (counter (replaced M main))

omit hM in
theorem unknown_moved {c : D.Content} (hc : ContentAvoids (Unknown M main) c) :
    ContentAvoids (moved M main).Secret c := fun g hg => hc g (unknown_of_moved hg)

omit hM in
theorem unknown_added {c : D.Content} (hc : ContentAvoids (Unknown M main) c) :
    ContentAvoids (added (replaced M main)).Secret c := fun g hg => hc g (unknown_of_added hg)

section Read

variable {imports : ℕ → Option D.Content}
  (himports : ∀ g c, imports g = some c → ContentAvoids (D := D) (Unknown M main) c)
include himports

/-- Without the inserted code, a run of the result is one of the module with the new `main`. -/
theorem read_movedFirst {es : List (Event D.toDataOps)} {s : State D.toDataOps}
    (hrun : Run (movedFirst M main).step ((movedFirst M main).initState imports) es s)
    (hes : ∀ e ∈ es, Permitted M main (handlerId (replaced M main)) e) :
    Reached (replaced M main) (movedFirst M main) imports es s ∧
      Run (replaced M main).step ((replaced M main).initState imports) (es.filterMap (original (replaced M main)))
        (view (replaced M main) s) := by
  have hready := hM.ready_replaced
  have hreached : Reached (replaced M main) (movedFirst M main) imports es s :=
    ⟨fun g c hc => unknown_added (himports g c hc), hrun, fun e he => (hes e he).allowed⟩
  refine ⟨hreached, ?_⟩
  have hread := ((hready.refines_instrumented hM.external_replaced).run hrun hreached.allowed
    ⟨0, hready.tracked_init hreached.outside⟩).2
  rwa [hready.view_init] at hread

/-- **A run of the result is read as one of the source.** -/
theorem run_movedFirst {es : List (Event D.toDataOps)} {s : State D.toDataOps}
    (hrun : Run (movedFirst M main).step ((movedFirst M main).initState imports) es s)
    (hes : ∀ e ∈ es, Permitted M main (handlerId (replaced M main)) e) :
    Run M.step (M.initState imports) (source M main es) (sourceState M main s) := by
  obtain ⟨-, hread⟩ := read_movedFirst hM himports hrun hes
  refine run_moved hM.moves (fun g c hc => unknown_moved (himports g c hc)) hread ?_
  intro e he
  obtain ⟨e', he', hshown⟩ := List.mem_filterMap.mp he
  rw [← eq_of_original hshown]
  exact fromOutside_of_subset (fun _ => unknown_of_moved) (hes e' he').1

/-- **A run of the source is read from one of the result**, for all arguments of `main`. -/
theorem lift_movedFirst {argc argv : Val D.Data} (hargc : argc.Avoids (Unknown M main))
    (hargv : argv.Avoids (Unknown M main)) {fs : List (Event D.toDataOps)} {t : State D.toDataOps}
    (hrun : Run M.step (M.initState imports) fs t)
    (hfs : ∀ e ∈ fs, FromOutside (Unknown M main) e ∧ StartsWith [] e) :
    ∃ es s, Run (movedFirst M main).step ((movedFirst M main).initState imports) es s ∧
      (∀ e ∈ es, Permitted M main (handlerId (replaced M main)) e ∧ StartsWith [argc, argv] e) ∧
      source M main es = fs ∧ sourceState M main s = t := by
  have hready := hM.ready_replaced
  have has : ∀ v ∈ [argc, argv], v.Avoids (Unknown M main) := by
    intro v hv
    simp only [List.mem_cons, List.not_mem_nil, or_false] at hv
    rcases hv with rfl | rfl
    · exact hargc
    · exact hargv
  obtain ⟨es₁, s₁, hrun₁, hstart₁, hread₁, hstate₁⟩ := lift_moved hM.moves
    (fun g c hc => unknown_moved (himports g c hc)) (fun v hv g hg => has v hv g (unknown_of_moved hg)) hrun
    fun e he => ⟨fromOutside_of_subset (fun _ => unknown_of_moved) (hfs e he).1, (hfs e he).2⟩
  have hout₁ : ∀ e ∈ es₁, FromOutside (added (replaced M main)).Secret e ∧ FromOutside (Unknown M main) e ∧
      StartsWith [argc, argv] e := by
    intro e he
    have hsource : FromOutside (Unknown M main) ((moved M main).event M.nextGlobal e) := by
      refine (hfs _ ?_).1
      rw [← hread₁]
      exact List.mem_map_of_mem he
    have hout := fromOutside_moved has hsource (hstart₁ e he)
    exact ⟨fromOutside_of_subset (fun _ => unknown_of_added) hout, hout, hstart₁ e he⟩
  rw [← hready.view_init] at hrun₁
  obtain ⟨es, s, hrun', hes, hread, hview, -⟩ :=
    (lifts_permitted hready hM.external_replaced (Unknown M main) [argc, argv]).run hrun₁ hout₁
      ⟨0, hready.tracked_init fun g c hc => unknown_added (himports g c hc)⟩
  refine ⟨es, s, hrun', fun e he => ⟨permitted_of_allowed (hes e he).1 (hes e he).2.1, (hes e he).2.2⟩, ?_, ?_⟩
  · rw [source, hread, hread₁]
  · rw [sourceState, hview, hstate₁]

/-- **The report of an orderly run is about the source.** -/
theorem report_movedFirst {es : List (Event D.toDataOps)} {s : State D.toDataOps}
    (hrun : Run (movedFirst M main).step ((movedFirst M main).initState imports) es s)
    (hes : ∀ e ∈ es, Permitted M main (handlerId (replaced M main)) e) (hend : s.control = .done true)
    (horderly : Orderly (movedFirst M main) (newMain M main) (handlerId (replaced M main)) imports es s)
    (hfits : blocksEntered M (handlerId (replaced M main)) (source M main es) < 2 ^ 31) :
    es.filterMap (printedNumber (handlerId (replaced M main))) =
      [(blocksEntered M (handlerId (replaced M main)) (source M main es) : ℤ)] := by
  have hready := hM.ready_replaced
  obtain ⟨hreached, hread⟩ := read_movedFirst hM himports hrun hes
  have hmain : main.id < M.nextGlobal := hM.wf.function_lt (PosixMain.main_mem hM.mainFn)
  have hlt : M.nextGlobal < handlerId (replaced M main) := by
    rw [hready.handlerId_eq]
    show M.nextGlobal < M.nextGlobal + 1 + 1
    omega
  have hsame := (hready.entered_original hM.external_replaced hreached hend).trans
    (blocksEntered_moved hM.moves hread (Nat.ne_of_gt hlt) (Nat.ne_of_gt (hmain.trans hlt)))
  rw [source, ← hsame] at hfits ⊢
  refine (hready.reportRight_orderly hM.external_replaced hreached hend horderly hfits).number ?_
  omega

end Read

/-- **The runs of the result are those of the source.** -/
theorem runsThrough_counted :
    RunsThrough M main (movedFirst M main) (newMain M main) (handlerFn (replaced M main) (newMain M main)) := by
  have hid : (handlerFn (replaced M main) (newMain M main)).id = handlerId (replaced M main) :=
    hM.ready_replaced.handlerDecl_id
  constructor
  case old =>
    intro D imports himports es s hrun hes
    rw [hid] at hes
    exact run_movedFirst hM himports hrun hes
  case new =>
    intro D imports himports argc argv hargc hargv fs t hrun hfs
    rw [hid]
    exact lift_movedFirst hM himports hargc hargv hrun hfs
  case report =>
    intro D imports himports es s hrun hes hend horderly hfits
    rw [hid] at hes horderly hfits ⊢
    exact report_movedFirst hM himports hrun hes hend horderly hfits

end Runs

/-- **`posix-main` and then `count-bb`**: both passes succeed, the result is well-formed, its runs are those of the
source, and the report is about the source. -/
theorem posixize_then_count {M : Module} {main : Function} (hM : Pipeable M main) (identifier : String) :
    ∃ M' N M'' H, posixizeMain M identifier = .ok ⟨[], true, M'⟩ ∧ M'.getFunction "main" = some N ∧
      runOnModule M' = .ok M'' ∧ M''.WellFormed ∧ M''.getFunction atexitCallStr = some H ∧
      RunsThrough M main M'' N H := by
  exact ⟨_, _, _, _, hM.moves.posixizeMain identifier, hM.ready_replaced.mainFn, hM.ready_replaced.runOnModule,
    hM.wellFormed_counted, hM.ready_replaced.getFunction_instrumented, runsThrough_counted hM⟩

theorem ready_pollModule : Ready pollModule pollMain where
  wf := pollModule_wellFormed
  mainFn := rfl
  defined := rfl
  noCounter := by decide
  noHandler := by decide
  printf V hV := by cases hV
  atexit V hV := by cases hV

theorem pipeable_pollModule : Pipeable pollModule pollMain where
  toReady := ready_pollModule
  params := rfl
  movable := movable_pollMain
  external := External.of_absent rfl rfl
  countable := by
    intro F hF _
    simp only [pollModule, List.mem_cons, List.not_mem_nil, or_false] at hF
    rcases hF with rfl | rfl | rfl <;> decide

theorem posixize_then_count_poll : ∃ M' N M'' H,
    posixizeMain pollModule "poll" = .ok ⟨[], true, M'⟩ ∧ M'.getFunction "main" = some N ∧
      runOnModule M' = .ok M'' ∧ M''.WellFormed ∧ M''.getFunction atexitCallStr = some H ∧
      RunsThrough pollModule pollMain M'' N H :=
  posixize_then_count pipeable_pollModule "poll"

end SnippetsLlvm.Pipeline
