import SnippetsLlvm.Pipeline.Callees

/-!
# `count-bb`, then `posix-main`

The other order of the two transformations: the module is counted first, and the counted `main` is then given its
two parameters.  The inserted code refers to neither `main` nor an exception, so that the counted `main` can be moved
when the old one can.

* `moves_counted` — **what can be moved before counting can be moved after it**;
* `lifts_permitted` — runs of the source are runs of the counted program in any environment that permits them;
* `Interchangeable` — the runs of one order are those of the other one, with the same report;
* `either_order` — **both orders succeed, and they are interchangeable**.
-/

namespace SnippetsLlvm.Pipeline

open SnippetsLlvm.Ir SnippetsLlvm.Library SnippetsLlvm.PosixMain SnippetsLlvm.CountBB

/-! ### The counted `main` -/

/-- Counting changes the blocks of a function and nothing else that is looked at. -/
theorem countedFn_header (M : Module) (main F : Function) :
    ∃ Bs n, countedFn M main F = { F with blocks := Bs, nextValue := n } := by
  have hregister : ∃ Bs n, registerAtFront (atexitId M) (handlerId M) F = { F with blocks := Bs, nextValue := n } := by
    rw [registerAtFront]
    split
    · exact ⟨F.blocks, F.nextValue, rfl⟩
    · exact ⟨_, _, rfl⟩
  rw [countedFn]
  split
  · obtain ⟨Bs, n, heq⟩ := hregister
    rw [heq]
    exact ⟨_, _, rfl⟩
  · exact ⟨_, _, rfl⟩

theorem countedMain_eq (M : Module) (main : Function) : countedMain M main = countedFn M main main := by
  rw [countedFn, if_pos rfl]
  rfl

theorem countedMain_id (M : Module) (main : Function) : (countedMain M main).id = main.id := by
  rw [countedMain_eq, countedFn_id]

theorem countedMain_head (M : Module) (main : Function) :
    (countedMain M main).blocks.head?.map BasicBlock.id = main.blocks.head?.map BasicBlock.id := by
  rw [countedMain_eq, ← List.head?_map, ← List.head?_map, (sameGraph_countedFn M main main).ids]

section Counted

variable {M : Module} {main : Function} (hM : Ready M main)
include hM

/-- A function with another name is not `main`. -/
theorem ne_main_of_named {g : ℕ} {name : String} {ty : FunctionType}
    (h : Named (instrumented M main (counter M)) g name ty) (hname : name ≠ "main") : g ≠ main.id := by
  obtain ⟨F, hF, rfl, rfl, -⟩ := h
  intro hid
  have hmem := Module.mem_functions_of_getFunction hM.getFunction_main
  have heq := List.inj_on_of_nodup_map (instrumented_functionIds hM) hF hmem
    (hid.trans (countedMain_id M main).symm)
  apply hname
  rw [heq]
  exact Module.name_of_getFunction hM.getFunction_main

theorem counter_ne_main : (counter M).id ≠ main.id := by
  have hlt := hM.main_lt
  rw [hM.counter_eq]
  exact Nat.ne_of_gt hlt

omit hM in
theorem mentions_geti8StrVal {N : Module} {str name : String} {g : ℕ} (h : N.nextGlobal ≠ g) :
    (geti8StrVal N str name).2.mentions g = false := by
  simp [geti8StrVal, Module.addGlobalVariable, GlobalVariable.ref, Constant.mentions, Constant.anyMentions, h]

omit hM in
theorem plain_of_isAdded {I : Instruction} (hI : IsAdded M I) :
    I.isTerminator = false ∧ I.needsPersonality = false ∧ I.isMustTail = false ∧ I.debugLoc = false := by
  rcases hI with ⟨n, hI⟩ | ⟨n, rfl⟩
  · simp only [countInsts, List.mem_cons, List.not_mem_nil, or_false] at hI
    rcases hI with rfl | rfl | rfl
    · exact ⟨rfl, rfl, rfl, rfl⟩
    · exact ⟨rfl, rfl, rfl, rfl⟩
    · exact ⟨rfl, rfl, rfl, rfl⟩
  · exact ⟨rfl, rfl, rfl, rfl⟩

/-- The inserted instructions call no intrinsic. -/
theorem intrinsic_added (hwf : (instrumented M main (counter M)).WellFormed) {I : Instruction} (hI : IsAdded M I)
    {g : ℕ} {ty : Ty} (hcallee : I.calledOperand = some (.const (.global g .function ty))) {G : Function}
    (hG : G ∈ (instrumented M main (counter M)).functions) (hid : G.id = g) : G.intrinsic = none := by
  by_contra hsome
  have hllvm := hwf.intrinsics G hG (Option.isSome_iff_ne_none.mpr hsome)
  rcases hI with ⟨m, hI⟩ | ⟨m, rfl⟩
  · simp only [countInsts, List.mem_cons, List.not_mem_nil, or_false] at hI
    rcases hI with rfl | rfl | rfl
    · cases hcallee
    · cases hcallee
    · cases hcallee
  · obtain rfl : atexitId M = g := by
      cases hcallee
      rfl
    obtain ⟨A, hA, hAid, hAname, -⟩ := named_atexit hM
    have hsame := List.inj_on_of_nodup_map (instrumented_functionIds hM) hG hA (hid.trans hAid.symm)
    rw [hsame, hAname] at hllvm
    exact absurd hllvm (by decide)

/-- The intrinsics of the result are those of the source. -/
theorem intrinsic_instrumented : ∀ G ∈ (instrumented M main (counter M)).functions, G.intrinsic.isSome = true →
    ∃ H ∈ M.functions, H.id = G.id ∧ H.intrinsic = G.intrinsic := by
  refine (forall_functions_instrumented hM ?_ ?_).mpr fun F hF _ => ?_
  · intro F hbare hintr
    rw [hbare.elim Bare.intrinsic Bare.intrinsic] at hintr
    cases hintr
  · intro hintr
    cases hintr
  · exact ⟨F, hF, (countedFn_id M main F).symm, (countedFn_intrinsic M main F).symm⟩

/-- The inserted instructions do not use `main`. -/
theorem mentions_added {I : Instruction} (hI : IsAdded M I) : I.mentions main.id = false := by
  have hcounter := counter_ne_main hM
  have hhandler := hM.main_ne_handler.symm
  have hatexit := ne_main_of_named hM (named_atexit hM) (by decide)
  rcases hI with ⟨n, hI⟩ | ⟨n, rfl⟩
  · simp only [countInsts, List.mem_cons, List.not_mem_nil, or_false] at hI
    rcases hI with rfl | rfl | rfl
    · simp [Instruction.mentions, oldCounter, GlobalVariable.ref, Value.mentions, Constant.mentions, hcounter]
    · simp [Instruction.mentions, newCounter, oldCounter, Instruction.ref, Value.mentions, Constant.mentions]
    · simp [Instruction.mentions, storeCounter, newCounter, Instruction.ref, GlobalVariable.ref, Value.mentions,
        Constant.mentions, hcounter]
  · simp [Instruction.mentions, registerCall, Value.mentions, Constant.mentions, hhandler, hatexit]

/-- Neither does the handler. -/
theorem mentions_handlerFn : ∀ I ∈ (handlerFn M main).insts, I.mentions main.id = false := by
  have hcounter := counter_ne_main hM
  have hprintf := ne_main_of_named hM (named_printf hM) (by decide)
  have hformat : (CountBB.format M main).mentions main.id = false := by
    have hne : (withPrintf M main).nextGlobal ≠ main.id := by
      have hlt := hM.main_lt
      have hle := le_withPrintf_nextGlobal M main
      omega
    exact mentions_geti8StrVal hne
  rw [handlerFn_insts]
  intro I hI
  simp only [List.mem_cons, List.not_mem_nil, or_false] at hI
  rcases hI with rfl | rfl | rfl
  · simp [Instruction.mentions, handlerLoad, GlobalVariable.ref, Value.mentions, Constant.mentions, hcounter]
  · simp [Instruction.mentions, handlerCall, handlerLoad, Instruction.ref, Value.mentions, hformat, Constant.mentions, hprintf]
  · rfl

omit hM in
/-- A variable of the result was there before, or its initializer uses no global. -/
theorem mem_globals_instrumented {G : GlobalVariable} (hG : G ∈ (instrumented M main (counter M)).globals) :
    G ∈ M.globals ∨ ∀ c, G.initializer = some c → ∀ g, c.mentions g = false := by
  have hprintf : (withPrintf M main).globals = M.globals ++ [counter M] := by
    rw [withPrintf, withSymbol_globals, withRegister, Module.modifyFunction_globals, withAtexit, withSymbol_globals,
      withHandler, withSymbol_globals]
    rfl
  have hall : G ∈ (withPrintf M main).globals ++ [((withPrintf M main).addGlobalVariable _ true .internal
      (some (.dataArray _ (cString formatStr))) "fmt").2] := hG
  rw [hprintf, List.append_assoc, List.mem_append] at hall
  refine hall.imp id fun hnew => ?_
  rw [List.singleton_append, List.mem_cons, List.mem_singleton] at hnew
  rcases hnew with rfl | rfl
  · intro c hc g
    obtain rfl : .int 64 0 = c := Option.some.inj hc
    rfl
  · intro c hc g
    obtain rfl := Option.some.inj hc
    rfl

/-- **Counting does not use `main`.** -/
theorem unused_counted (h : Unused M main) : Unused (instrumented M main (counter M)) (countedMain M main) := by
  have hid := countedMain_id M main
  constructor
  case insts =>
    rw [hid]
    refine (forall_functions_instrumented hM ?_ (mentions_handlerFn hM)).mpr fun F hF => ?_
    · intro F hbare I hI
      rw [hbare.elim Bare.insts Bare.insts] at hI
      cases hI
    · exact (forall_countedFn (fun I hI => mentions_added hM hI) F).mpr (h.insts F hF)
  case personalities =>
    rw [hid]
    refine (forall_functions_instrumented hM ?_ ?_).mpr fun F hF => ?_
    · intro F hbare _ c hc
      rw [hbare.elim Bare.personality Bare.personality] at hc
      cases hc
    · intro _ c hc
      cases hc
    · obtain ⟨Bs, n, heq⟩ := countedFn_header M main F
      rw [heq]
      exact h.personalities F hF
  case initializers =>
    rw [hid]
    intro G hG c hc
    rcases mem_globals_instrumented hG with hold | hnew
    · exact h.initializers G hold c hc
    · exact hnew c hc main.id
  case aliasees =>
    rw [hid, (Ready.instrumented_aliases M main (counter M)).1]
    exact h.aliasees
  case resolvers =>
    rw [hid, (Ready.instrumented_aliases M main (counter M)).2]
    exact h.resolvers

/-- **What can be moved before counting can be moved after it.** -/
theorem movable_counted (hwf : (instrumented M main (counter M)).WellFormed) (h : Movable M main) :
    Movable (instrumented M main (counter M)) (countedMain M main) := by
  have hinsts : ∀ {P : Instruction → Prop}, (∀ I, IsAdded M I → P I) → (∀ I ∈ main.insts, P I) →
      ∀ I ∈ (countedMain M main).insts, P I := by
    intro P hP hall
    rw [countedMain_eq]
    exact (forall_countedFn hP main).mpr hall
  obtain ⟨Bs, n, heq⟩ := countedFn_header M main main
  rw [← countedMain_eq] at heq
  constructor
  case unused => exact unused_counted hM h.unused
  case rets =>
    have hret : (countedMain M main).type.ret = main.type.ret := by rw [heq]
    rw [hret]
    refine hinsts (fun I hI hop => ?_) h.rets
    have hterm : I.isTerminator = true := by
      rw [Instruction.isTerminator, hop]
      rfl
    rw [(plain_of_isAdded hI).1] at hterm
    cases hterm
  case noPads => exact hinsts (fun I hI => (plain_of_isAdded hI).2.1) h.noPads
  case noMustTail => exact hinsts (fun I hI => (plain_of_isAdded hI).2.2.1) h.noMustTail
  case noVaStart =>
    refine hinsts (fun I hI g ty hcallee G hG hid => ?_) fun I hI g ty hcallee G hG hid hva => ?_
    · rw [intrinsic_added hM hwf hI hcallee hG hid]
      simp
    · obtain ⟨H, hH, hid', hsame⟩ := intrinsic_instrumented hM G hG (by rw [hva]; rfl)
      exact h.noVaStart I hI g ty hcallee H hH (hid'.trans hid) (hsame.trans hva)
  case noGC =>
    refine hinsts ?_ ?_
    · rintro I hI ⟨g, ty, hcallee, G, hG, hid, hgc⟩
      rw [intrinsic_added hM hwf hI hcallee hG hid] at hgc
      cases hgc
    · rintro I hI ⟨g, ty, hcallee, G, hG, hid, hgc⟩
      obtain ⟨H, hH, hid', hsame⟩ := intrinsic_instrumented hM G hG (Option.isSome_of_any hgc)
      exact h.noGC I hI ⟨g, ty, hcallee, H, hH, hid'.trans hid, hsame ▸ hgc⟩
  case attributes =>
    rw [heq]
    exact h.attributes
  case callingConv =>
    rw [heq]
    exact h.callingConv
  case subprogram =>
    rintro ⟨I, hI, hloc⟩
    have hsub : (countedMain M main).subprogram = main.subprogram := by rw [heq]
    rw [hsub]
    by_contra hsome
    have hnone : ∀ I ∈ main.insts, I.debugLoc = false := by
      intro J hJ
      by_contra hJloc
      exact hsome (h.subprogram ⟨J, hJ, by simpa using hJloc⟩)
    have hfalse := hinsts (fun I hI => (plain_of_isAdded hI).2.2.2) hnone I hI
    rw [hfalse] at hloc
    cases hloc

end Counted

/-! ### The runs -/

/-- The counted module with the new `main`. -/
abbrev countedFirst (M : Module) (main : Function) : Module :=
  replaced (instrumented M main (counter M)) (countedMain M main)

section Runs

variable (M : Module) (main : Function) {D : DataSem}

/-- An event of the counted module with the new `main`, read as one with the old `main`. -/
def unmovedEvent (e : Event D.toDataOps) : Event D.toDataOps :=
  (moved (instrumented M main (counter M)) (countedMain M main)).event (instrumented M main (counter M)).nextGlobal e

/-- What remains of a run of the counted module with the new `main`. -/
def countedSource (es : List (Event D.toDataOps)) : List (Event D.toDataOps) :=
  (es.map (unmovedEvent M main)).filterMap (original M)

/-- What remains of a state of it. -/
def countedSourceState (s : State D.toDataOps) : State D.toDataOps :=
  view M ((moved (instrumented M main (counter M)) (countedMain M main)).state s)

end Runs

/-- An action from outside is still one when the arguments of `main` are left out. -/
theorem fromOutside_event {S : ℕ → Prop} {N : Module} {main : Function} {D : DataSem} {m : ℕ}
    {e : Event D.toDataOps} (h : FromOutside S e) : FromOutside S ((moved N main).event m e) := by
  cases e with
  | act caller a =>
    cases a with
    | runMain as =>
      intro v hv
      have hmem : v ∈ as := by
        change v ∈ (if (moved N main).dropsArgs m then [] else as) at hv
        split at hv
        · cases hv
        · exact hv
      exact h v hmem
    | _ => exact h
  | _ => trivial

/-- A program that has ended has ended for the old `main`. -/
theorem done_of_moved (N : Module) (main : Function) {D : DataSem} {s : State D.toDataOps}
    (hend : s.control = .done true) : ((moved N main).state s).control = .done true := by
  show (moved N main).control s.control = _
  rw [hend]
  rfl

namespace Pipeable

variable {M : Module} {main : Function} (hM : Pipeable M main)
include hM

theorem wellFormed_instrumented : (instrumented M main (counter M)).WellFormed :=
  (instrumented_wellFormed_iff hM.wf hM.toReady.setupCond hM.toReady.getGlobalVariable_counter
    (counter_valueType _)).mpr hM.countable

/-- **The counted `main` runs alike as another function.** -/
theorem moves_counted : Moves (instrumented M main (counter M)) (countedMain M main) := by
  obtain ⟨Bs, n, heq⟩ := countedFn_header M main main
  rw [← countedMain_eq] at heq
  have hwf := hM.wellFormed_instrumented
  have hmain := hM.toReady.getFunction_main
  have hmovable := movable_counted hM.toReady hwf hM.movable
  refine ⟨hwf, hmain, ?_, noInvoke_of_noPads (hwf.functions _ (PosixMain.main_mem hmain)) hmovable.noPads,
    hmovable.unused⟩
  rw [heq]
  exact hM.params

theorem wellFormed_countedFirst : (countedFirst M main).WellFormed :=
  replaced_wellFormed hM.wellFormed_instrumented hM.toReady.getFunction_main hM.moves_counted.params
    (movable_counted hM.toReady hM.wellFormed_instrumented hM.movable)

theorem handlerId_lt : handlerId M < (instrumented M main (counter M)).nextGlobal := by
  obtain ⟨hmem, hid⟩ := Module.mem_of_function? hM.toReady.function?_handler
  rw [← hid]
  exact hM.wellFormed_instrumented.function_lt hmem

theorem unknown_of_secret {g : ℕ} (hg : (moved (instrumented M main (counter M)) (countedMain M main)).Secret g) :
    Unknown M main g := by
  have hlt := hM.handlerId_lt
  have hid := hM.toReady.handlerId_eq
  rcases PosixMain.secret_iff.mp hg with rfl | rfl
  · exact .inl (countedMain_id M main)
  · exact .inr (by omega)

/-- The handler is not the new `main`. -/
theorem handlerId_ne_new : handlerId M ≠ (instrumented M main (counter M)).nextGlobal := Nat.ne_of_lt hM.handlerId_lt

/-- Nor is it the old one. -/
theorem handlerId_ne_old : handlerId M ≠ (countedMain M main).id := by
  rw [countedMain_id]
  exact hM.toReady.main_ne_handler.symm

/-- The handler keeps its identity. -/
theorem fn_handler {g : ℕ} :
    (moved (instrumented M main (counter M)) (countedMain M main)).fn g = handlerId M ↔ g = handlerId M :=
  fn_moved hM.handlerId_ne_new hM.handlerId_ne_old

variable {D : DataSem}

/-- What the environment may do to the program with the new `main`, it may do to the counted one. -/
theorem allowed_unmoved {e : Event D.toDataOps} (h : Permitted M main (handlerId M) e) :
    Allowed M (unmovedEvent M main e) := by
  cases e with
  | act caller a =>
    refine ⟨fromOutside_of_subset (fun g hg => .inr (secret_iff.mp hg)) (fromOutside_event h.1), ?_⟩
    intro hcaller
    obtain ⟨g, rfl, hg⟩ := Option.map_eq_some_iff.mp hcaller
    obtain ⟨v, hv⟩ := h.2 a (by rw [hM.fn_handler.mp hg])
    rw [hv]
    exact ⟨v, rfl⟩
  | _ => trivial

/-- What the counted program allows, the environment of the program with the new `main` may do. -/
theorem permitted_of_unmoved {as : List (Val D.Data)} (has : ∀ v ∈ as, v.Avoids (Unknown M main))
    {e : Event D.toDataOps} (hstart : StartsWith as e) (hallowed : Allowed M (unmovedEvent M main e))
    (hout : FromOutside (Unknown M main) (unmovedEvent M main e)) : Permitted M main (handlerId M) e := by
  refine ⟨fromOutside_moved has hout hstart, ?_⟩
  rintro a rfl
  obtain ⟨v, hv⟩ := hallowed.2 (congrArg some (hM.fn_handler.mpr rfl))
  cases a with
  | ret w => exact ⟨w, rfl⟩
  | _ => cases hv

section Read

variable {imports : ℕ → Option D.Content}
  (himports : ∀ g c, imports g = some c → ContentAvoids (D := D) (Unknown M main) c)
include himports

/-- A run of the program with the new `main` is one of the counted program. -/
theorem read_countedFirst {es : List (Event D.toDataOps)} {s : State D.toDataOps}
    (hrun : Run (countedFirst M main).step ((countedFirst M main).initState imports) es s)
    (hes : ∀ e ∈ es, Permitted M main (handlerId M) e) :
    Reached M (instrumented M main (counter M)) imports (es.map (unmovedEvent M main))
      ((moved (instrumented M main (counter M)) (countedMain M main)).state s) := by
  refine ⟨fun g c hc i hi => himports g c hc i (.inr (secret_iff.mp hi)), ?_, ?_⟩
  · refine run_moved hM.moves_counted (fun g c hc i hi => himports g c hc i (hM.unknown_of_secret hi)) hrun ?_
    exact fun e he => fromOutside_of_subset (fun _ => hM.unknown_of_secret) (hes e he).1
  · intro e he
    obtain ⟨e', he', rfl⟩ := List.mem_map.mp he
    exact hM.allowed_unmoved (hes e' he')

/-- **A run of the result is read as one of the source.** -/
theorem run_countedFirst {es : List (Event D.toDataOps)} {s : State D.toDataOps}
    (hrun : Run (countedFirst M main).step ((countedFirst M main).initState imports) es s)
    (hes : ∀ e ∈ es, Permitted M main (handlerId M) e) :
    Run M.step (M.initState imports) (countedSource M main es) (countedSourceState M main s) := by
  have hreached := hM.read_countedFirst himports hrun hes
  have hread := ((hM.toReady.refines_instrumented hM.external).run hreached.run hreached.allowed
    ⟨0, hM.toReady.tracked_init hreached.outside⟩).2
  rwa [hM.toReady.view_init] at hread

/-- **A run of the source is read from one of the result**, for all arguments of `main`. -/
theorem lift_countedFirst {as : List (Val D.Data)} (has : ∀ v ∈ as, v.Avoids (Unknown M main))
    {fs : List (Event D.toDataOps)} {t : State D.toDataOps} (hrun : Run M.step (M.initState imports) fs t)
    (hfs : ∀ e ∈ fs, FromOutside (Unknown M main) e ∧ StartsWith [] e) :
    ∃ es s, Run (countedFirst M main).step ((countedFirst M main).initState imports) es s ∧
      (∀ e ∈ es, Permitted M main (handlerId M) e ∧ StartsWith as e) ∧
      countedSource M main es = fs ∧ countedSourceState M main s = t := by
  rw [← hM.toReady.view_init] at hrun
  obtain ⟨es₁, s₁, hrun₁, hes₁, hread₁, hview₁, -⟩ :=
    (lifts_permitted hM.toReady hM.external (Unknown M main) []).run hrun
      (fun e he => ⟨fromOutside_of_subset (fun g hg => .inr (secret_iff.mp hg)) (hfs e he).1, hfs e he⟩)
      ⟨0, hM.toReady.tracked_init fun g c hc i hi => himports g c hc i (.inr (secret_iff.mp hi))⟩
  obtain ⟨es, s, hrun', hstart, hread, hstate⟩ := lift_moved hM.moves_counted
    (fun g c hc i hi => himports g c hc i (hM.unknown_of_secret hi))
    (fun v hv g hg => has v hv g (hM.unknown_of_secret hg)) hrun₁
    fun e he => ⟨fromOutside_of_subset (fun _ => hM.unknown_of_secret) (hes₁ e he).2.1, (hes₁ e he).2.2⟩
  have hmap : es.map (unmovedEvent M main) = es₁ := hread
  refine ⟨es, s, hrun', fun e he => ⟨?_, hstart e he⟩, ?_, ?_⟩
  · have hmem : unmovedEvent M main e ∈ es₁ := by
      rw [← hmap]
      exact List.mem_map_of_mem he
    exact hM.permitted_of_unmoved has (hstart e he) (hes₁ _ hmem).1 (hes₁ _ hmem).2.1
  · rw [countedSource, hmap, hread₁]
  · rw [countedSourceState, hstate, hview₁]

omit himports in
/-- The new `main` is entered when the counted one is. -/
theorem entersMain_unmoved {es : List (Event D.toDataOps)} {s : State D.toDataOps}
    (hrun : Run (countedFirst M main).step ((countedFirst M main).initState imports) es s)
    {e : Event D.toDataOps} (he : e ∈ es) :
    entersMain (instrumented M main (counter M)) main (unmovedEvent M main e) =
      entersMain (countedFirst M main) (newMain (instrumented M main (counter M)) (countedMain M main)) e := by
  rw [← entersMain_congr (countedMain_id M main) (countedMain_head M main)]
  exact entersMain_moved hM.moves_counted hrun he

/-- An orderly run of the program with the new `main` is one of the counted program. -/
theorem orderly_unmoved {es : List (Event D.toDataOps)} {s : State D.toDataOps}
    (hrun : Run (countedFirst M main).step ((countedFirst M main).initState imports) es s)
    (hes : ∀ e ∈ es, Permitted M main (handlerId M) e)
    (h : Orderly (countedFirst M main) (newMain (instrumented M main (counter M)) (countedMain M main))
      (handlerId M) imports es s)
    (hend : s.control = .done true) :
    Orderly (instrumented M main (counter M)) main (handlerId M) imports (es.map (unmovedEvent M main))
      ((moved (instrumented M main (counter M)) (countedMain M main)).state s) := by
  constructor
  case once =>
    rw [List.countP_map, ← h.once]
    refine List.countP_congr fun e he => ?_
    rw [Function.comp_apply, hM.entersMain_unmoved hrun he]
  case stays =>
    have hreached := hM.read_countedFirst himports hrun hes
    have hend' := done_of_moved (instrumented M main (counter M)) (countedMain M main) hend
    have hwf := hM.wellFormed_countedFirst
    have hall := (costed_zero_iff (distinct_of_wellFormed hwf _) (terminatorsLast_of_wellFormed hwf) hrun hend).mp
      h.stays
    refine (costed_zero_iff hM.toReady.distinct_instrumented hM.toReady.terminatorsLast_instrumented hreached.run
      hend').mpr ?_
    have hsame := blocksEntered_moved hM.moves_counted hrun hM.handlerId_ne_new hM.handlerId_ne_old
    have hbegun := terminatorsBegun_moved hM.handlerId_ne_new hM.handlerId_ne_old es
    exact hsame.symm.trans (hall.trans hbegun.symm)
  case last =>
    rw [List.pairwise_map]
    refine h.last.imp fun {e e'} hlast hstart => ?_
    have hstart' : startsHandler (handlerId M) e = true := by
      cases e with
      | handler g => exact hstart
      | _ => cases hstart
    have hstarts := hlast hstart'
    cases e' with
    | act caller a =>
      cases a with
      | callback => cases hstarts
      | _ => rfl
    | handler => cases hstarts
    | _ => rfl

omit himports in
/-- What is printed is printed. -/
theorem printedNumber_unmoved (e : Event D.toDataOps) :
    printedNumber (handlerId M) (unmovedEvent M main e) = printedNumber (handlerId M) e := by
  cases e with
  | exec g b is vs =>
    show printedNumber _ (.exec ((moved (instrumented M main (counter M)) (countedMain M main)).fn g) b is vs) = _
    by_cases hg : g = handlerId M
    · rw [hM.fn_handler.mpr hg, hg]
    · rw [printedNumber_other hg, printedNumber_other (mt hM.fn_handler.mp hg)]
  | _ => rfl

/-- **The report of an orderly run is about the source.** -/
theorem report_countedFirst {es : List (Event D.toDataOps)} {s : State D.toDataOps}
    (hrun : Run (countedFirst M main).step ((countedFirst M main).initState imports) es s)
    (hes : ∀ e ∈ es, Permitted M main (handlerId M) e) (hend : s.control = .done true)
    (horderly : Orderly (countedFirst M main) (newMain (instrumented M main (counter M)) (countedMain M main))
      (handlerId M) imports es s)
    (hfits : blocksEntered M (handlerId M) (countedSource M main es) < 2 ^ 31) :
    es.filterMap (printedNumber (handlerId M)) = [(blocksEntered M (handlerId M) (countedSource M main es) : ℤ)] := by
  have hreached := hM.read_countedFirst himports hrun hes
  have hend' := done_of_moved (instrumented M main (counter M)) (countedMain M main) hend
  have hprinted : (es.map (unmovedEvent M main)).filterMap (printedNumber (handlerId M)) =
      es.filterMap (printedNumber (handlerId M)) := by
    rw [List.filterMap_map]
    exact List.filterMap_congr fun e _ => hM.printedNumber_unmoved e
  rw [countedSource, ← hM.toReady.entered_original hM.external hreached hend'] at hfits ⊢
  rw [← hprinted]
  refine (hM.toReady.reportRight_orderly hM.external hreached hend' (hM.orderly_unmoved himports hrun hes horderly hend)
    hfits).number ?_
  omega

end Read

end Pipeable

/-! ### Both orders -/

section Both

variable (M : Module) (main : Function)

/-- The runs of `A`, moved first, and of `B`, counted first, are the same runs of `M`, whatever the arguments of `main`,
and two orderly runs that are the same run of `M` print the same. -/
structure Interchangeable (A : Module) (NA HA : Function) (B : Module) (NB HB : Function) : Prop where
  forth : ∀ (D : DataSem) (imports : ℕ → Option D.Content),
    (∀ g c, imports g = some c → ContentAvoids (D := D) (Unknown M main) c) →
    ∀ argc argv : Val D.Data, argc.Avoids (Unknown M main) → argv.Avoids (Unknown M main) →
    ∀ es s, Run A.step (A.initState imports) es s → (∀ e ∈ es, Permitted M main HA.id e) →
      ∃ es' s', Run B.step (B.initState imports) es' s' ∧
        (∀ e ∈ es', Permitted M main HB.id e ∧ StartsWith [argc, argv] e) ∧
        countedSource M main es' = source M main es ∧ countedSourceState M main s' = sourceState M main s
  back : ∀ (D : DataSem) (imports : ℕ → Option D.Content),
    (∀ g c, imports g = some c → ContentAvoids (D := D) (Unknown M main) c) →
    ∀ argc argv : Val D.Data, argc.Avoids (Unknown M main) → argv.Avoids (Unknown M main) →
    ∀ es' s', Run B.step (B.initState imports) es' s' → (∀ e ∈ es', Permitted M main HB.id e) →
      ∃ es s, Run A.step (A.initState imports) es s ∧
        (∀ e ∈ es, Permitted M main HA.id e ∧ StartsWith [argc, argv] e) ∧
        source M main es = countedSource M main es' ∧ sourceState M main s = countedSourceState M main s'
  report : ∀ (D : DataSem) (imports : ℕ → Option D.Content),
    (∀ g c, imports g = some c → ContentAvoids (D := D) (Unknown M main) c) →
    ∀ es s es' s', Run A.step (A.initState imports) es s → (∀ e ∈ es, Permitted M main HA.id e) →
      Run B.step (B.initState imports) es' s' → (∀ e ∈ es', Permitted M main HB.id e) →
      source M main es = countedSource M main es' → s.control = .done true → s'.control = .done true →
      Orderly A NA HA.id imports es s → Orderly B NB HB.id imports es' s' →
      blocksEntered M HA.id (source M main es) < 2 ^ 31 →
      es.filterMap (printedNumber HA.id) = es'.filterMap (printedNumber HB.id)

end Both

section Sources

variable {M : Module} {main : Function} {D : DataSem}

/-- The old `main` is started without arguments. -/
theorem startsWith_event {N : Module} (e : Event D.toDataOps) :
    StartsWith [] ((moved N main).event N.nextGlobal e) := by
  cases e with
  | act caller a =>
    cases a with
    | runMain as =>
      show (if N.nextGlobal == N.nextGlobal then [] else as) = []
      rw [beq_self_eq_true, if_pos rfl]
    | _ => trivial
  | _ => trivial

/-- What is read of a permitted run, moved first. -/
theorem permitted_source {h : ℕ} {es : List (Event D.toDataOps)} (hes : ∀ e ∈ es, Permitted M main h e) :
    ∀ e ∈ source M main es, FromOutside (Unknown M main) e ∧ StartsWith [] e := by
  intro e he
  obtain ⟨e₁, he₁, rfl⟩ := List.mem_map.mp he
  obtain ⟨e₂, he₂, hshown⟩ := List.mem_filterMap.mp he₁
  rw [← eq_of_original hshown]
  exact ⟨fromOutside_event (hes e₂ he₂).1, startsWith_event e₂⟩

/-- What is read of a permitted run, counted first. -/
theorem permitted_countedSource {h : ℕ} {es : List (Event D.toDataOps)} (hes : ∀ e ∈ es, Permitted M main h e) :
    ∀ e ∈ countedSource M main es, FromOutside (Unknown M main) e ∧ StartsWith [] e := by
  intro e he
  obtain ⟨e₁, he₁, hshown⟩ := List.mem_filterMap.mp he
  obtain ⟨e₂, he₂, rfl⟩ := List.mem_map.mp he₁
  rw [← eq_of_original hshown]
  exact ⟨fromOutside_event (hes e₂ he₂).1, startsWith_event e₂⟩

end Sources

/-- The blocks a run enters do not depend on a function the module does not have. -/
theorem blocksEntered_fresh {M : Module} (hM : M.WellFormed) {D : DataSem} {imports : ℕ → Option D.Content}
    {es : List (Event D.toDataOps)} {s : State D.toDataOps} (hrun : Run M.step (M.initState imports) es s)
    {h h' : ℕ} (hh : M.nextGlobal ≤ h) (hh' : M.nextGlobal ≤ h') : blocksEntered M h es = blocksEntered M h' es := by
  rw [blocksEntered, blocksEntered]
  refine List.countP_congr fun e he => ?_
  cases e with
  | exec g b is vs =>
    obtain ⟨B, hB⟩ := Run.exec_block hrun he
    obtain ⟨F, hF, -⟩ := Option.bind_eq_some_iff.mp hB
    obtain ⟨hmem, rfl⟩ := Module.mem_of_function? hF
    have hlt := hM.function_lt hmem
    have hne : F.id ≠ h := by omega
    have hne' : F.id ≠ h' := by omega
    show (decide (F.id ≠ h) && isFront M F.id b is) = true ↔ (decide (F.id ≠ h') && isFront M F.id b is) = true
    rw [decide_eq_true hne, decide_eq_true hne']
  | _ => exact Iff.rfl

section Both

variable {M : Module} {main : Function} (hM : Pipeable M main)
include hM

/-- **The runs of the two orders are the same**, and so are their reports. -/
theorem interchangeable : Interchangeable M main (movedFirst M main) (countedMain (replaced M main) (newMain M main))
    (handlerFn (replaced M main) (newMain M main)) (countedFirst M main)
    (newMain (instrumented M main (counter M)) (countedMain M main)) (handlerFn M main) := by
  have hidA : (handlerFn (replaced M main) (newMain M main)).id = handlerId (replaced M main) :=
    hM.ready_replaced.handlerDecl_id
  have hidB : (handlerFn M main).id = handlerId M := hM.toReady.handlerDecl_id
  have hargs : ∀ {D : DataSem} {argc argv : Val D.Data}, argc.Avoids (Unknown M main) →
      argv.Avoids (Unknown M main) → ∀ v ∈ [argc, argv], v.Avoids (Unknown M main) := by
    intro D argc argv hargc hargv v hv
    simp only [List.mem_cons, List.not_mem_nil, or_false] at hv
    rcases hv with rfl | rfl
    · exact hargc
    · exact hargv
  constructor
  case forth =>
    intro D imports himports argc argv hargc hargv es s hrun hes
    rw [hidA] at hes
    rw [hidB]
    exact hM.lift_countedFirst himports (hargs hargc hargv) (run_movedFirst hM himports hrun hes)
      (permitted_source hes)
  case back =>
    intro D imports himports argc argv hargc hargv es' s' hrun hes'
    rw [hidB] at hes'
    rw [hidA]
    obtain ⟨es, s, hrun', hes, hread, hstate⟩ := lift_movedFirst hM himports hargc hargv
      (hM.run_countedFirst himports hrun hes') (permitted_countedSource hes')
    exact ⟨es, s, hrun', hes, hread, hstate⟩
  case report =>
    intro D imports himports es s es' s' hrun hes hrun' hes' hsame hend hend' horderly horderly' hfits
    rw [hidA] at hes horderly hfits ⊢
    rw [hidB] at hes' horderly' ⊢
    have hread := run_movedFirst hM himports hrun hes
    have hA : M.nextGlobal ≤ handlerId (replaced M main) := by
      rw [hM.ready_replaced.handlerId_eq]
      show M.nextGlobal ≤ M.nextGlobal + 1 + 1
      omega
    have hB : M.nextGlobal ≤ handlerId M := by
      rw [hM.toReady.handlerId_eq]
      omega
    have hcount := blocksEntered_fresh hM.wf hread hA hB
    have horderly₁ : Orderly (movedFirst M main) (newMain M main) (handlerId (replaced M main)) imports
        es s := by
      refine ⟨?_, horderly.stays, horderly.last⟩
      rw [← horderly.once, entersMain_congr (countedMain_id _ _) (countedMain_head _ _)]
    rw [report_movedFirst hM himports hrun hes hend horderly₁ hfits, hcount, hsame]
    rw [hcount, hsame] at hfits
    rw [hM.report_countedFirst himports hrun' hes' hend' horderly' hfits]

end Both

/-- The handler keeps its name. -/
theorem Pipeable.getFunction_countedFirst {M : Module} {main : Function} (hM : Pipeable M main) :
    (countedFirst M main).getFunction atexitCallStr = some (handlerFn M main) := by
  have hmem := Module.mem_of_getNamedValue (Module.getFunction_eq_some.mp hM.toReady.getFunction_instrumented)
  have hid : (handlerFn M main).id ≠ (countedMain M main).id := by
    have hhandler : (handlerFn M main).id = handlerId M := hM.toReady.handlerDecl_id
    rw [hhandler]
    exact hM.handlerId_ne_old
  have hmem' := mem_replaced hM.wellFormed_instrumented hM.toReady.getFunction_main hmem hid
  have hname : (GlobalValue.function (handlerFn M main)).name = atexitCallStr := handlerFn_name M main
  have hfound := Module.getNamedValue_of_mem hM.wellFormed_countedFirst.names hmem'
  rw [hname] at hfound
  exact Module.getFunction_eq_some.mpr (hfound (by decide))

/-- **The two passes in either order**: both orders succeed with well-formed modules, whose runs are the same runs of the
source, and whose reports agree. -/
theorem either_order {M : Module} {main : Function} (hM : Pipeable M main) (identifier : String) :
    ∃ A NA HA B NB HB,
      (∃ M', posixizeMain M identifier = .ok ⟨[], true, M'⟩ ∧ runOnModule M' = .ok A) ∧
      (∃ M', runOnModule M = .ok M' ∧ posixizeMain M' identifier = .ok ⟨[], true, B⟩) ∧
      A.WellFormed ∧ B.WellFormed ∧ A.getFunction "main" = some NA ∧ B.getFunction "main" = some NB ∧
      A.getFunction atexitCallStr = some HA ∧ B.getFunction atexitCallStr = some HB ∧
      Interchangeable M main A NA HA B NB HB := by
  refine ⟨_, _, _, _, _, _, ⟨_, hM.moves.posixizeMain identifier, hM.ready_replaced.runOnModule⟩,
    ⟨_, hM.toReady.runOnModule, hM.moves_counted.posixizeMain identifier⟩, hM.wellFormed_counted,
    hM.wellFormed_countedFirst, hM.ready_replaced.getFunction_main, ?_, hM.ready_replaced.getFunction_instrumented,
    hM.getFunction_countedFirst, interchangeable hM⟩
  exact getFunction_replaced hM.wellFormed_instrumented hM.toReady.getFunction_main

theorem either_order_poll : ∃ A NA HA B NB HB,
    (∃ M', posixizeMain pollModule "poll" = .ok ⟨[], true, M'⟩ ∧ runOnModule M' = .ok A) ∧
    (∃ M', runOnModule pollModule = .ok M' ∧ posixizeMain M' "poll" = .ok ⟨[], true, B⟩) ∧
    A.WellFormed ∧ B.WellFormed ∧ A.getFunction "main" = some NA ∧ B.getFunction "main" = some NB ∧
    A.getFunction atexitCallStr = some HA ∧ B.getFunction atexitCallStr = some HB ∧
    Interchangeable pollModule pollMain A NA HA B NB HB :=
  either_order pipeable_pollModule "poll"

end SnippetsLlvm.Pipeline
