import SnippetsLlvm.PosixMain.WellFormed
import SnippetsLlvm.Ir.Erasure
import SnippetsLlvm.Ir.WordData

/-!
# What `posix-main` preserves

The new `main` has the blocks of the old one, and its two arguments are nowhere used.  So its runs are read
as runs of the old `main` by leaving the arguments out (`moved`), and the two modules run alike step by step.
One thing was lost with the old function: an exception that reaches an `invoke` of `main` finds no personality
any more.

* `IsReplacement` — the new module is the old one with another `main`;
* `RunsLike` — every run of either module is a run of the other one, as long as no exception reaches an
  `invoke` of a `main` that had a personality;
* `posixizeMain_preserves` — **the pass leaves such a module, and leaves it alone when run again**;
* `posixizeMain_catchModule` — a module in which an exception is caught before the pass and not after it.
-/

namespace SnippetsLlvm.PosixMain

open SnippetsLlvm.Ir SnippetsLlvm.Library

/-! ### The statement -/

/-- The module `M'` is the module `M` with the function `N` in place of `main`. -/
structure IsReplacement (M : Module) (main : Function) (M' : Module) (N : Function) : Prop where
  found : M'.getFunction "main" = some N
  unique : M'.functions.filter (·.name = "main") = [N]
  type : N.type = mainTy
  linkage : N.linkage = main.linkage
  attributes : N.attributes = main.attributes
  blocks : N.blocks = main.blocks
  functions : M'.functions = M.functions.filter (·.id ≠ main.id) ++ [N]
  globals : M'.globals = M.globals
  aliases : M'.aliases = M.aliases
  ifuncs : M'.ifuncs = M.ifuncs
  structs : M'.structs = M.structs
  names : M'.names.Perm M.names

/-- The new `main` is read as the old one, without its arguments. -/
def moved (M : Module) (main : Function) : Erasure where
  fn g := if g = M.nextGlobal then main.id else g
  hidesFn g := g == main.id
  keeps _ _ := true
  dropsArgs g := g == M.nextGlobal
  hides g := g == main.id || g == M.nextGlobal

/-- An exception has reached a call that the function `g` makes by an `invoke`. -/
def reachesInvoke {D : DataOps} (g : ℕ) (s : State D) : Bool :=
  match s.control, s.conts with
  | .raise _, .frame fr site :: _ => fr.fn == g && match site.opcode with
    | .invoke _ => true
    | _ => false
  | _, _ => false

/-- The states in which the personality of `main`, running as the function `g`, does not matter. -/
def indifferent {D : DataOps} (main : Function) (g : ℕ) (s : State D) : Bool :=
  !(main.personality.isSome && reachesInvoke g s)

/-- When `main` is started, it is with the arguments `as`. -/
def StartsWith {D : DataOps} (as : List (Val D.Data)) : Event D → Prop
  | .act _ (.runMain as') => as' = as
  | _ => True

/-- The runs of the new module are the runs of the old one, for all arguments of `main`. -/
structure RunsLike (M : Module) (main : Function) (M' : Module) (N : Function) : Prop where
  old : ∀ (D : DataSem) imports, (∀ g c, imports g = some c → ContentAvoids (D := D) (moved M main).Secret c) →
    ∀ es s, Run (restrict (indifferent main N.id) M'.step) (M'.initState imports) es s →
      (∀ e ∈ es, FromOutside (moved M main).Secret e) →
      Run M.step (M.initState imports) (es.map ((moved M main).event N.id)) ((moved M main).state s)
  new : ∀ (D : DataSem) imports, (∀ g c, imports g = some c → ContentAvoids (D := D) (moved M main).Secret c) →
    ∀ argc argv : Val D.Data, argc.Avoids (moved M main).Secret → argv.Avoids (moved M main).Secret →
    ∀ es s, Run (restrict (indifferent main main.id) M.step) (M.initState imports) es s →
      (∀ e ∈ es, FromOutside (moved M main).Secret e ∧ StartsWith [] e) →
      ∃ es' s', Run M'.step (M'.initState imports) es' s' ∧ (∀ e ∈ es', StartsWith [argc, argv] e) ∧
        es'.map ((moved M main).event N.id) = es ∧ (moved M main).state s' = s

/-! ### The functions by identity -/

section Lookups

variable {M : Module} {main : Function} (hM : M.WellFormed) (hmain : M.getFunction "main" = some main)

theorem function?_replaced_other {g : ℕ} (hold : g ≠ main.id) (hnew : g ≠ M.nextGlobal) :
    (replaced M main).function? g = M.function? g := by
  have hfilter : (M.functions.filter (·.id ≠ main.id)).find? (·.id = g) =
      M.functions.find? (·.id = g) := by
    rw [List.find?_filter]
    refine congrFun (congrArg List.find? (funext fun F => ?_)) _
    by_cases hF : F.id = g
    · simp [hF, hold]
    · simp [hF]
  have hlast : [newMain M main].find? (·.id = g) = none := by
    simp [newMain, hnew.symm]
  show (M.functions.filter (·.id ≠ main.id) ++ [newMain M main]).find? (·.id = g) = _
  rw [List.find?_append, hfilter, hlast, Option.or_none]
  rfl

include hM hmain

theorem newId_ne : M.nextGlobal ≠ main.id := (Nat.ne_of_lt (hM.function_lt (main_mem hmain))).symm

omit hmain in
theorem function?_replaced_new : (replaced M main).function? M.nextGlobal = some (newMain M main) := by
  have hnone : (M.functions.filter (·.id ≠ main.id)).find? (·.id = M.nextGlobal) = none := by
    refine List.find?_eq_none.mpr fun F hF => ?_
    have hlt := hM.function_lt (List.mem_of_mem_filter hF)
    simpa using Nat.ne_of_lt hlt
  show (M.functions.filter (·.id ≠ main.id) ++ [newMain M main]).find? (·.id = M.nextGlobal) = _
  rw [List.find?_append, hnone]
  simp [newMain]

theorem function?_replaced_old : (replaced M main).function? main.id = none := by
  have hne := newId_ne hM hmain
  refine List.find?_eq_none.mpr fun F hF => ?_
  have hid : F.id ≠ main.id := by
    rcases mem_functions_replaced.mp hF with ⟨-, hF⟩ | rfl
    · exact hF
    · exact hne
  simpa using hid

/-! ### The two modules have their code in common -/

omit hmain in
/-- Nothing in a well-formed module refers to the identity the next global gets. -/
theorem mentions_next {c : Constant} (h : ∀ g, c.mentions g = true → ∃ V ∈ M.globalValues, V.id = g) :
    c.mentions M.nextGlobal = false := by
  by_contra hm
  obtain ⟨V, hV, hid⟩ := h M.nextGlobal (by simpa using hm)
  exact absurd hid (Nat.ne_of_lt (hM.idBound V hV))

omit hM hmain in
theorem secret_iff {g : ℕ} : (moved M main).Secret g ↔ g = main.id ∨ g = M.nextGlobal := by
  simp [Erasure.Secret, moved]

omit hmain in
theorem secret_mentions {c : Constant} (hc : c.mentions main.id = false)
    (h : ∀ g, c.mentions g = true → ∃ V ∈ M.globalValues, V.id = g) :
    ∀ g, (moved M main).Secret g → c.mentions g = false := by
  intro g hg
  rcases secret_iff.mp hg with rfl | rfl
  · exact hc
  · exact mentions_next hM h

omit hmain in
/-- No instruction refers to `main`, the old one or the new one. -/
theorem quiet_of_unused (hunused : Unused M main) {F : Function} (hF : F ∈ M.functions)
    {I : Instruction} (hI : I ∈ F.insts) : Quiet (moved M main).Secret I := by
  intro v hv g hg
  cases v with
  | const c =>
    have hno : (Value.const c).mentions main.id = false := by
      simpa using List.any_eq_false.mp (hunused.insts F hF I hI) _ hv
    exact secret_mentions hM hno (((hM.functions F hF).globalRefs I hI _ hv).2) g hg
  | _ => rfl

theorem code_replaced {g : ℕ} (hg : g ≠ main.id) :
    Option.Rel (moved M main).SameCode ((replaced M main).function? g)
      (M.function? ((moved M main).fn g)) := by
  have hall : ∀ F : Function, F.blocks.map ((moved M main).block F.id) = F.blocks := by
    intro F
    refine (List.map_congr_left fun B _ => ?_).trans (List.map_id _)
    have hinsts : (moved M main).insts F.id B.insts = B.insts := List.filter_eq_self.mpr fun _ _ => rfl
    rw [Erasure.block, hinsts]
    rfl
  by_cases hnew : g = M.nextGlobal
  · subst hnew
    have hfn : (moved M main).fn M.nextGlobal = main.id := if_pos rfl
    rw [function?_replaced_new hM, hfn, hM.function?_of_mem (main_mem hmain)]
    refine .some ⟨hfn.symm, (hall (newMain M main)).symm, ?_⟩
    rw [main_name hmain]
    rfl
  · have hfn : (moved M main).fn g = g := if_neg hnew
    rw [function?_replaced_other hg hnew, hfn]
    cases hF : M.function? g with
    | none => exact .none
    | some F =>
      have hid := (Module.mem_of_function? hF).2
      refine .some ⟨?_, (hall F).symm, Iff.rfl⟩
      rw [hid, hfn]

/-- The functions of the new module have the instructions of the old one. -/
theorem quiet_replaced (hparams : main.type.params = []) (hunused : Unused M main) {F : Function}
    (hF : F ∈ (replaced M main).functions) {I : Instruction} (hI : I ∈ F.insts) :
    Quiet (moved M main).Secret I ∧ ∀ v ∈ I.operands, (moved M main).Reads F.id v := by
  rcases mem_functions_replaced.mp hF with ⟨hF, -⟩ | rfl
  · refine ⟨quiet_of_unused hM hunused hF hI, fun v _ => ?_⟩
    have hlt := hM.function_lt hF
    cases v with
    | inst => rfl
    | arg => simpa [Erasure.Reads, moved] using Nat.ne_of_lt hlt
    | _ => trivial
  · have hmem := main_mem hmain
    have hI : I ∈ main.insts := hI
    refine ⟨quiet_of_unused hM hunused hmem hI, fun v hv => ?_⟩
    cases v with
    | inst => rfl
    | arg i ty =>
      have href : main.type.params[i]? = some ty := (hM.functions main hmem).localRefs I hI _ hv
      rw [hparams] at href
      cases href
    | _ => trivial

/-- **The new module is read as the old one.** -/
theorem erases_replaced (hparams : main.type.params = []) (hunused : Unused M main) :
    Erases (moved M main) (replaced M main) M (newMain M main) main where
  aliases := rfl
  ifuncs := rfl
  mainFn' := getFunction_replaced hM hmain
  mainFn := hmain
  mainShown := by simpa [moved, newMain] using newId_ne hM hmain
  mainRead := if_pos rfl
  known g hg := by
    simp only [moved, Bool.or_eq_false_iff, beq_eq_false_iff_ne] at hg
    exact ⟨by simpa [moved] using hg.1, if_neg hg.2, by simpa [moved] using hg.2⟩
  code g hg := code_replaced hM hmain (by simpa [moved] using hg)
  blocks g b B _ hB := by
    obtain ⟨F, hF, hB⟩ := Option.bind_eq_some_iff.mp hB
    obtain ⟨hmem, hid⟩ := Module.mem_of_function? hF
    have hB := List.mem_of_find?_eq_some hB
    have hread : ∀ I ∈ B.insts, Quiet (moved M main).Secret I ∧
        ∀ v ∈ I.operands, (moved M main).Reads g v := by
      intro I hI
      rw [← hid]
      exact quiet_replaced hM hmain hparams hunused hmem (List.mem_flatMap.mpr ⟨B, hB, hI⟩)
    refine ⟨phisFirst_of_wellFormed ?_, fun _ _ _ => rfl, fun I hI _ => (hread I hI).1,
      fun I hI _ => (hread I hI).2⟩
    rcases mem_functions_replaced.mp hmem with ⟨hmem, -⟩ | rfl
    · exact (hM.functions F hmem).blocks B hB
    · exact (hM.functions main (main_mem hmain)).blocks B hB
  aliasees A hA := secret_mentions hM (hunused.aliasees A hA) (hM.aliasees A hA)

/-! ### The states of the new module -/

variable {D : DataSem}

omit hM hmain in
variable (M main) in
/-- A state of the new module: every frame in place, and nowhere the address of `main`. -/
structure Settled (s : State D.toDataOps) : Prop where
  positioned : Positioned (replaced M main) s
  clean : s.Clean (moved M main).Secret
  handlers : ∀ g ∈ s.handlers, (moved M main).hides g = false

/-- What a step executes does not refer to `main`. -/
theorem cleanEvent_replaced (hparams : main.type.params = []) (hunused : Unused M main)
    {s s' : State D.toDataOps} {a : Act D.toDataOps} {e : Event D.toDataOps}
    (hs : Positioned (replaced M main) s) (he : FromOutside (moved M main).Secret e)
    (h : (replaced M main).step s a = some (e, s')) : CleanEvent (moved M main).Secret e := by
  cases e with
  | exec fn b insts vs =>
    obtain ⟨B, hB, hmem⟩ := exec_mem hs h
    obtain ⟨F, hF, hB⟩ := Option.bind_eq_some_iff.mp hB
    exact fun I hI => (quiet_replaced hM hmain hparams hunused (Module.mem_of_function? hF).1
      (List.mem_flatMap.mpr ⟨B, List.mem_of_find?_eq_some hB, hmem I hI⟩)).1
  | act caller a => exact he
  | _ => trivial

/-- **One step keeps a state settled.** -/
theorem step_settled (hparams : main.type.params = []) (hunused : Unused M main)
    {s s' : State D.toDataOps} {a : Act D.toDataOps} {e : Event D.toDataOps}
    (hs : Settled M main s) (he : FromOutside (moved M main).Secret e)
    (h : (replaced M main).step s a = some (e, s')) : Settled M main s' := by
  have hE := erases_replaced hM hmain hparams hunused
  have hclean := cleanEvent_replaced hM hmain hparams hunused hs.positioned he h
  refine ⟨step_positioned hs.positioned h, step_clean hE.aliasees hs.clean hclean h, fun g hg => ?_⟩
  rcases step_handlers hE.aliasees hs.clean hclean h g hg with hg | hg
  · exact hs.handlers g hg
  · simpa [Erasure.Secret] using hg

/-- A frame in place is not a frame of the old `main`. -/
theorem fn_ne_main {g b : ℕ} {B : BasicBlock} (h : (replaced M main).block? g b = some B) :
    g ≠ main.id := by
  rintro rfl
  rw [Module.block?, function?_replaced_old hM hmain] at h
  cases h

theorem settled_cont {s : State D.toDataOps} (hs : Settled M main s) {fr : Frame D.toDataOps}
    {site : Instruction} (h : .frame fr site ∈ s.conts) : fr.fn ≠ main.id := by
  obtain ⟨B, hB, -⟩ := hs.positioned.conts fr site h
  exact fn_ne_main hM hmain hB

/-- An `invoke` of the old `main` is reached when one of the new `main` is. -/
theorem indifferent_state {s : State D.toDataOps} (hs : Settled M main s) :
    indifferent main main.id ((moved M main).state s) = indifferent main M.nextGlobal s := by
  have hreach : reachesInvoke main.id ((moved M main).state s) = reachesInvoke M.nextGlobal s := by
    have hcontrol : ((moved M main).state s).control = (moved M main).control s.control := rfl
    have hconts : ((moved M main).state s).conts = s.conts.map (moved M main).cont := rfl
    simp only [reachesInvoke, hcontrol, hconts]
    cases hc : s.control with
    | raise exn =>
      cases hks : s.conts with
      | nil => rfl
      | cons k rest =>
        cases k with
        | env k => rfl
        | frame fr site =>
          have hcont : .frame fr site ∈ s.conts := by
            rw [hks]
            exact .head _
          have hne := settled_cont hM hmain hs hcont
          have hfn : ((moved M main).fn fr.fn == main.id) = (fr.fn == M.nextGlobal) := by
            by_cases h : fr.fn = M.nextGlobal
            · rw [h, show (moved M main).fn M.nextGlobal = main.id from if_pos rfl]
              simp
            · rw [show (moved M main).fn fr.fn = fr.fn from if_neg h]
              simp [hne, h]
          show ((moved M main).fn fr.fn == main.id && _) = _
          rw [hfn]
    | _ => rfl
  rw [indifferent, indifferent, hreach]

omit hM hmain in
theorem Settled.nextShown {s : State D.toDataOps} (hs : Settled M main s) :
    (moved M main).NextShown s := fun g _ hg => hs.handlers g (by rw [hg]; exact List.mem_cons_self)

/-- **The next step of a settled state is seen**, unless an exception reaches an `invoke` of `main`. -/
theorem Settled.erasable {s : State D.toDataOps} (hs : Settled M main s)
    (hind : indifferent main M.nextGlobal s = true) :
    Erasable (moved M main) (replaced M main) M s where
  positioned := hs.positioned
  clean := hs.clean
  control fr hc := by
    obtain ⟨B, hB, -⟩ := hs.positioned.control fr hc
    exact ⟨by simpa [moved] using fn_ne_main hM hmain hB, fun _ _ _ => rfl⟩
  conts fr site h := ⟨by simpa [moved] using settled_cont hM hmain hs h, rfl⟩
  unwinds exn fr site rest ft hc hks hop := by
    have hcont : .frame fr site ∈ s.conts := by
      rw [hks]
      exact .head _
    have hne := settled_cont hM hmain hs hcont
    by_cases hnew : fr.fn = M.nextGlobal
    · have hfn : (moved M main).fn M.nextGlobal = main.id := if_pos rfl
      have hreach : reachesInvoke M.nextGlobal s = true := by
        simp [reachesInvoke, hc, hks, hop, hnew]
      rw [indifferent, hreach, Bool.and_true] at hind
      rw [hnew, function?_replaced_new hM, hfn, hM.function?_of_mem (main_mem hmain)]
      show none.isSome = main.personality.isSome
      rw [show main.personality.isSome = false by simpa using hind]
      rfl
    · have hfn : (moved M main).fn fr.fn = fr.fn := if_neg hnew
      rw [function?_replaced_other hne hnew, hfn]

/-! ### The runs -/

/-- Every step of the new module is the step of the old one that it is read as. -/
theorem refines_replaced (hparams : main.type.params = []) (hunused : Unused M main) :
    Refines (restrict (indifferent main M.nextGlobal) ((replaced M main).step (D := D.toDataOps)))
      M.step (moved M main).state (fun e => some ((moved M main).event M.nextGlobal e))
      (Settled M main) (FromOutside (moved M main).Secret) := by
  intro s a e s' hs he h
  obtain ⟨hind, h⟩ := restrict_eq_some.mp h
  refine ⟨step_settled hM hmain hparams hunused hs he h, (moved M main).act M.nextGlobal a, ?_⟩
  have ha : Outside (moved M main).Secret a := step_action _ _ _ _ h ▸ he.action
  have hstep := (erases_replaced hM hmain hparams hunused).step (hs.erasable hM hmain hind) ha
    fun _ _ => hs.nextShown
  rw [h] at hstep
  exact hstep

omit hM hmain in
/-- The action of the new module that starts `main` with the arguments `as`. -/
def withArgs (as : List (Val D.Data)) : Act D.toDataOps → Act D.toDataOps
  | .runMain _ => .runMain as
  | a => a

/-- Every step of the old module, which starts `main` without arguments, is a step of the new one, which
starts it with any. -/
theorem lifts_replaced (hparams : main.type.params = []) (hunused : Unused M main)
    {as : List (Val D.Data)} (has : ∀ v ∈ as, v.Avoids (moved M main).Secret) :
    Lifts ((replaced M main).step (D := D.toDataOps)) (restrict (indifferent main main.id) M.step)
      (moved M main).state (fun e => some ((moved M main).event M.nextGlobal e)) (Settled M main)
      (StartsWith as) (fun e => FromOutside (moved M main).Secret e ∧ StartsWith [] e) := by
  intro s a e s' hs he h
  obtain ⟨hind, h⟩ := restrict_eq_some.mp h
  rw [indifferent_state hM hmain hs] at hind
  have haction := step_action _ _ _ _ h
  have ha : Outside (moved M main).Secret a := haction ▸ he.1.action
  have hread : (moved M main).act M.nextGlobal (withArgs as a) = a := by
    cases a with
    | runMain as' =>
      have hnil : as' = [] := by
        cases e with
        | act caller a' =>
          cases haction
          exact he.2
        | _ => cases haction
      rw [hnil]
      show Act.runMain ((moved M main).args M.nextGlobal as) = _
      rw [Erasure.args, show (moved M main).dropsArgs M.nextGlobal = true by simp [moved]]
      rfl
    | _ => rfl
  have hout : Outside (moved M main).Secret (withArgs as a) := by
    cases a with
    | runMain => exact has
    | _ => exact ha
  have hstep := (erases_replaced hM hmain hparams hunused).step (hs.erasable hM hmain hind) hout
    fun _ _ => hs.nextShown
  rw [show (newMain M main).id = M.nextGlobal from rfl, hread, h] at hstep
  obtain ⟨⟨e', t⟩, ht, heq⟩ := Option.map_eq_some_iff.mp hstep.symm
  obtain ⟨rfl, rfl⟩ := Prod.mk.inj heq
  have hback : e'.action = withArgs as a := step_action _ _ _ _ ht
  have hstart : StartsWith as e' := by
    cases e' with
    | act caller a' =>
      cases a' with
      | runMain as' =>
        cases a with
        | runMain => exact (Act.runMain.inj hback)
        | _ => cases hback
      | _ => trivial
    | _ => trivial
  have hfrom : FromOutside (moved M main).Secret e' := by
    cases e' with
    | act caller a' => exact (show a' = withArgs as a from hback) ▸ hout
    | _ => trivial
  refine ⟨[e'], t, Run.single ht, fun e he => ?_, rfl, rfl,
    step_settled hM hmain hparams hunused hs hfrom ht⟩
  rw [List.mem_singleton.mp he]
  exact hstart

/-- Before the program starts the two modules are in the same state. -/
theorem state_init (imports : ℕ → Option D.Content) :
    (moved M main).state ((replaced M main).initState imports) = M.initState imports := by
  have hmem : (moved M main).mem ((replaced M main).initState imports).mem =
      (M.initState (D := D.toDataOps) imports).mem := by
    funext o
    rw [Erasure.mem]
    split
    · rename_i ho
      cases o with
      | dyn n => rfl
      | global g =>
        have hnone : M.global? g = none := by
          refine List.find?_eq_none.mpr fun G hG => ?_
          have hmem : GlobalValue.variable G ∈ others M main := by simp [others, hG]
          have hids := ((perm_others hM hmain).map GlobalValue.id).nodup_iff.mp hM.ids
          rw [List.map_cons, List.nodup_cons] at hids
          have hlt := hM.global_lt hG
          have hne : G.id ≠ main.id := by
            intro h
            have hin := List.mem_map_of_mem (f := GlobalValue.id) hmem
            rw [show (GlobalValue.variable G).id = main.id from h] at hin
            exact hids.1 hin
          rcases secret_iff.mp ho with rfl | rfl
          · simpa using hne
          · simpa using Nat.ne_of_lt hlt
        show none = (M.global? g).bind _
        rw [hnone]
        rfl
    · rfl
  rw [Erasure.state, hmem]
  rfl

omit hmain in
theorem settled_init (hunused : Unused M main) {imports : ℕ → Option D.Content}
    (himports : ∀ g c, imports g = some c → ContentAvoids (moved M main).Secret c) :
    Settled M main ((replaced M main).initState imports) where
  positioned := initState_positioned _ _
  clean := initState_clean (fun G hG c hc g hg _ =>
    secret_mentions hM (hunused.initializers G hG c hc) (hM.initializers G hG c hc).2 g hg) himports
  handlers g hg := by cases hg

/-- **The runs of the two modules are the same.** -/
theorem runsLike_replaced (hparams : main.type.params = []) (hunused : Unused M main) :
    RunsLike M main (replaced M main) (newMain M main) where
  old D imports himports es s hrun hes := by
    have h := ((refines_replaced hM hmain hparams hunused).run hrun hes
      (settled_init hM hunused himports)).2
    rwa [List.filterMap_eq_map', state_init hM hmain] at h
  new D imports himports argc argv hargc hargv es s hrun hes := by
    have has : ∀ v ∈ [argc, argv], v.Avoids (moved M main).Secret := by
      intro v hv
      simp only [List.mem_cons, List.not_mem_nil, or_false] at hv
      rcases hv with rfl | rfl
      · exact hargc
      · exact hargv
    rw [← state_init hM hmain] at hrun
    obtain ⟨es', s', hrun', hstart, hread, hstate, -⟩ :=
      (lifts_replaced hM hmain hparams hunused has).run hrun hes
        (settled_init hM hunused himports)
    rw [List.filterMap_eq_map'] at hread
    exact ⟨es', s', hrun', hstart, hread, hstate⟩

/-! ### The result -/

/-- The new module differs from the old one in `main` only. -/
theorem isReplacement_replaced : IsReplacement M main (replaced M main) (newMain M main) where
  found := getFunction_replaced hM hmain
  unique := by
    have hnone : (M.functions.filter (·.id ≠ main.id)).filter (·.name = "main") = [] := by
      refine List.filter_eq_nil_iff.mpr fun F hF hname => ?_
      have hmem : GlobalValue.function F ∈ others M main := by
        have hin := List.mem_map_of_mem (f := GlobalValue.function) hF
        rw [others, List.append_assoc, List.append_assoc]
        exact List.mem_append_left _ hin
      have hin := List.mem_map_of_mem (f := GlobalValue.name) hmem
      rw [show (GlobalValue.function F).name = "main" from of_decide_eq_true hname] at hin
      exact main_notMem_others hM hmain hin
    show (M.functions.filter (·.id ≠ main.id) ++ [newMain M main]).filter (·.name = "main") = _
    rw [List.filter_append, hnone]
    rfl
  type := rfl
  linkage := rfl
  attributes := rfl
  blocks := rfl
  functions := rfl
  globals := rfl
  aliases := rfl
  ifuncs := rfl
  structs := rfl
  names := names_perm hM hmain

end Lookups

/-- A `main` of two parameters is left alone. -/
theorem posixizeMain_two {M : Module} {main : Function} (hmain : M.getFunction "main" = some main)
    (hparams : main.type.params = mainTy.params) (identifier : String) :
    posixizeMain M identifier = .ok ⟨["arg_size == 2, nothing to do\n"], false, M⟩ := by
  simp only [posixizeMain, hmain, hparams]
  rfl

/-- **`posix-main` preserves meaning, touches nothing else and is idempotent.**  A module without `main`, or
with a `main` of two parameters, is left alone; otherwise the new module is the old one with another `main`
and the same runs, up to exceptions that reach an `invoke` of a `main` with a personality, and a second run
leaves it alone. -/
theorem posixizeMain_preserves (M : Module) (identifier : String) :
    (M.getFunction "main" = none → posixizeMain M identifier =
      .ok ⟨["no main function in " ++ identifier ++ "\n"], false, M⟩) ∧
    (∀ main, M.getFunction "main" = some main → main.type.params = mainTy.params →
      posixizeMain M identifier = .ok ⟨["arg_size == 2, nothing to do\n"], false, M⟩) ∧
    ∀ main, M.WellFormed → M.getFunction "main" = some main → main.type.params = [] → Unused M main →
      ∃ M' N, posixizeMain M identifier = .ok ⟨[], true, M'⟩ ∧ IsReplacement M main M' N ∧
        RunsLike M main M' N ∧
        posixizeMain M' identifier = .ok ⟨["arg_size == 2, nothing to do\n"], false, M'⟩ := by
  refine ⟨fun hnone => ?_, fun main hmain hparams => posixizeMain_two hmain hparams identifier,
    fun main hM hmain hparams hunused => ?_⟩
  · simp only [posixizeMain, hnone]
  · have huses := (hasUses_replaced hM hmain).mpr hunused
    refine ⟨replaced M main, newMain M main, ?_, isReplacement_replaced hM hmain,
      runsLike_replaced hM hmain hparams hunused,
      posixizeMain_two (getFunction_replaced hM hmain) rfl identifier⟩
    rw [posixizeMain_eq hmain hparams, replaceMain_eq hM hmain hparams, huses]
    rfl

theorem posixizeMain_preserves_poll : ∃ M' N,
    posixizeMain pollModule "poll" = .ok ⟨[], true, M'⟩ ∧ IsReplacement pollModule pollMain M' N ∧
      RunsLike pollModule pollMain M' N ∧
      posixizeMain M' "poll" = .ok ⟨["arg_size == 2, nothing to do\n"], false, M'⟩ :=
  (posixizeMain_preserves pollModule "poll").2.2 pollMain pollModule_wellFormed rfl rfl movable_pollMain.unused

/-! ### An exception that is no longer caught -/

theorem unused_catchMain : Unused catchModule catchMain where
  insts := by decide
  personalities := by
    intro F hF hne c hc
    simp only [catchModule, List.mem_cons, List.not_mem_nil, or_false] at hF
    rcases hF with rfl | rfl | rfl
    · exact absurd rfl hne
    · cases hc
    · cases hc
  initializers := by simp [catchModule]
  aliasees := by simp [catchModule]
  resolvers := by simp [catchModule]

/-- Whether an instruction of the block `b` is executed. -/
def runsBlock {D : DataOps} (b : ℕ) : Event D → Bool
  | .exec _ b' _ _ => b' == b
  | _ => false

/-- `main` is run, calls `f`, which throws, and the handler is entered. -/
def catchActs : List (Act wordSem.toDataOps) := [.runMain [], .tick, .throw (.int 64 7), .tick, .tick]

/-- The run of a module along the actions of `catchActs`, `main` being started with `as`. -/
def catchRun (M : Module) (as : List (Val wordSem.Data)) :
    Option (List (Event wordSem.toDataOps) × State wordSem.toDataOps) :=
  follow M.step (M.initState fun _ => none) (catchActs.map (withArgs as))

/-- **The handler of the old `main` runs, that of the new one does not.** -/
theorem posixizeMain_catchModule : catchModule.WellFormed ∧
    catchModule.getFunction "main" = some catchMain ∧ catchMain.type.params = [] ∧
    Unused catchModule catchMain ∧
    ∃ M', posixizeMain catchModule "catch" = .ok ⟨[], true, M'⟩ ∧
      ∃ es s, Run (catchModule.step (D := wordSem.toDataOps)) (catchModule.initState fun _ => none) es s ∧
        ¬ ∃ es' s', Run M'.step (M'.initState fun _ => none) es' s' ∧
          es'.map ((moved catchModule catchMain).event 3) = es := by
  have hM := catchModule_wellFormed
  have hrun : posixizeMain catchModule "catch" = .ok ⟨[], true, replaced catchModule catchMain⟩ := by
    rw [posixizeMain_eq rfl rfl, replaceMain_eq hM rfl rfl,
      (hasUses_replaced hM rfl).mpr unused_catchMain]
    rfl
  obtain ⟨⟨es, s⟩, hold⟩ : ∃ r, catchRun catchModule [] = some r :=
    Option.isSome_iff_exists.mp (by rfl)
  refine ⟨hM, rfl, rfl, unused_catchMain, _, hrun, es, s, Run.of_follow hold, ?_⟩
  rintro ⟨es', s', hnew, hread⟩
  -- the new run has the actions of the old one, up to the arguments of `main`
  have hactions : (es'.map Event.action).map ((moved catchModule catchMain).act 3) = catchActs := by
    have h := map_action_of_follow step_action hold
    rw [← hread, List.map_map] at h
    rw [List.map_map]
    refine (List.map_congr_left fun e _ => ?_).trans h
    exact ((moved catchModule catchMain).event_action 3 e).symm
  obtain ⟨as, has⟩ : ∃ as, es'.map Event.action = catchActs.map (withArgs as) := by
    generalize es'.map Event.action = as' at hactions
    simp only [catchActs, List.map_eq_cons_iff, List.map_eq_nil_iff] at hactions
    obtain ⟨a₀, _, rfl, h₀, a₁, _, rfl, h₁, a₂, _, rfl, h₂, a₃, _, rfl, h₃, a₄, _, rfl, h₄, rfl⟩ :=
      hactions
    cases a₀ <;> cases h₀
    cases a₁ <;> cases h₁
    cases a₂ <;> cases h₂
    cases a₃ <;> cases h₃
    cases a₄ <;> cases h₄
    exact ⟨_, rfl⟩
  have hfollow := hnew.follow step_action
  rw [has] at hfollow
  have hblocks : (catchRun catchModule []).map (fun r => r.1.any (runsBlock 2)) = some true := by rfl
  have hblocks' : (catchRun (replaced catchModule catchMain) as).map (fun r => r.1.any (runsBlock 2)) =
      some false := by rfl
  rw [hold, Option.map_some, Option.some.injEq, ← hread, List.any_map] at hblocks
  rw [catchRun, hfollow, Option.map_some, Option.some.injEq] at hblocks'
  have hsame : runsBlock 2 ∘ (moved catchModule catchMain).event 3 =
      runsBlock (D := wordSem.toDataOps) 2 := by
    funext e
    cases e <;> rfl
  rw [hsame, hblocks'] at hblocks
  cases hblocks

end SnippetsLlvm.PosixMain
