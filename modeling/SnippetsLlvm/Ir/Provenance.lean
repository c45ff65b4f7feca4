import SnippetsLlvm.Ir.Steps

/-!
# Addresses the program never gets

No operation on data forges the address of a global it was not given.  When the instructions of a module do
not refer to certain globals and the environment does not know them, no value of a run ever carries their
address.

* `Val.Avoids`, `State.Clean` — a value, a state without the addresses of the globals in a set `S`;
* `Quiet`, `Outside` — an instruction that does not refer to them, an action of the environment that does
  not use them;
* `FromOutside` — the events of an environment that does not know them;
* `step_clean` — **a step that executes quiet instructions or is an action from outside keeps a state
  clean**;
* `operandVals_avoid` — the operand values of a quiet instruction.
-/

namespace SnippetsLlvm.Ir

open SnippetsLlvm.Library

variable {D : DataSem} (S : ℕ → Prop)

/-! ### Clean values and states -/

/-- A value without the address of a global in `S`. -/
def Val.Avoids (v : Val D.Data) : Prop := ∀ g, S g → ¬ v.Mentions D.dataMentions g

/-- The contents of an object without the address of a global in `S`. -/
def ContentAvoids (c : D.Content) : Prop := ∀ g, S g → ¬ D.contentMentions c g

/-- The memory object of a global in `S`. -/
def Hidden : Obj → Prop
  | .global g => S g
  | .dyn _ => False

/-- A frame whose values are clean. -/
structure Frame.Clean (fr : Frame D.toDataOps) : Prop where
  locals : ∀ i v, fr.locals i = some v → v.Avoids S
  args : ∀ v ∈ fr.args, v.Avoids S
  pad : ∀ v, fr.pad = some v → v.Avoids S

/-- What runs carries clean values. -/
def Control.Clean : Control D.toDataOps → Prop
  | .exec fr => fr.Clean S
  | .raise exn => exn.Avoids S
  | _ => True

/-- What waits carries clean values. -/
def Cont.Clean : Cont D.toDataOps → Prop
  | .frame fr _ => fr.Clean S
  | .env _ => True

/-- A state whose values are clean, as far as the memory of the other globals goes. -/
structure State.Clean (s : State D.toDataOps) : Prop where
  control : s.control.Clean S
  conts : ∀ k ∈ s.conts, k.Clean S
  mem : ∀ o c, ¬ Hidden S o → s.mem o = some c → ContentAvoids S c

/-! ### Quiet instructions and actions from outside -/

/-- An instruction that does not refer to a global in `S`. -/
def Quiet (I : Instruction) : Prop := ∀ v ∈ I.operands, ∀ g, S g → v.mentions g = false

/-- An action of an environment that does not know the globals in `S`. -/
def Outside : Act D.toDataOps → Prop
  | .ret v | .throw v => v.Avoids S
  | .callback g args => ¬ S g ∧ ∀ v ∈ args, v.Avoids S
  | .write eff => (∀ o, Hidden S o → eff o = none) ∧ ∀ o c, eff o = some (some c) → ContentAvoids S c
  | .malloc c => ContentAvoids S c
  | .runMain args => ∀ v ∈ args, v.Avoids S
  | _ => True

/-- An event that leaves a state clean. -/
def CleanEvent : Event D.toDataOps → Prop
  | .exec _ _ insts _ => ∀ I ∈ insts, Quiet S I
  | .act _ a => Outside S a
  | _ => True

/-- An event of the program, or an action from outside. -/
def FromOutside : Event D.toDataOps → Prop
  | .act _ a => Outside S a
  | _ => True

/-- The aliases of a module do not lead to globals in `S`. -/
def AliasesAvoid (M : Module) : Prop := ∀ A ∈ M.aliases, ∀ g, S g → A.aliasee.mentions g = false

variable {S}

/-- An action that an event from outside shows is one from outside. -/
theorem FromOutside.action {e : Event D.toDataOps} (h : FromOutside S e) : Outside S e.action := by
  cases e with
  | act caller a => exact h
  | _ => trivial

/-! ### Operands -/

/-- What a successful `mapM` returns comes from the list. -/
theorem exists_of_mapM {α β : Type} {f : α → Option β} {l : List α} {bs : List β}
    (h : l.mapM f = some bs) : ∀ b ∈ bs, ∃ a ∈ l, f a = some b := by
  induction l generalizing bs with
  | nil =>
    cases h
    simp
  | cons a l ih =>
    rw [List.mapM_cons] at h
    obtain ⟨b, hb, h⟩ := Option.bind_eq_some_iff.mp h
    obtain ⟨bs', hbs', h⟩ := Option.bind_eq_some_iff.mp h
    cases h
    intro c hc
    rcases List.mem_cons.mp hc with rfl | hc
    · exact ⟨a, List.mem_cons_self, hb⟩
    · obtain ⟨a', ha', hfa'⟩ := ih hbs' c hc
      exact ⟨a', List.mem_cons_of_mem _ ha', hfa'⟩

section Operands

variable {M : Module} (hM : AliasesAvoid S M)

theorem avoids_int {w : ℕ} (x : BitVec w) : (Val.int w x : Val D.Data).Avoids S := fun _ _ h => h

theorem avoids_void : (Val.void : Val D.Data).Avoids S := fun _ _ h => h

theorem avoids_dyn (n : ℕ) (off : ℤ) : (Val.ptr (.dyn n) off : Val D.Data).Avoids S := fun _ _ h => h

/-- A clean pointer does not point into a hidden object. -/
theorem Val.Avoids.not_hidden {o : Obj} {off : ℤ} (h : (Val.ptr o off : Val D.Data).Avoids S) :
    ¬ Hidden S o := by
  cases o with
  | global g => exact fun hg => h g hg rfl
  | dyn n => exact fun hn => hn

include hM

theorem resolve_avoids (n : ℕ) {c : Constant} (hc : ∀ g, S g → c.mentions g = false) :
    ∀ g, S g → (M.resolve n c).mentions g = false := by
  induction n generalizing c with
  | zero => exact hc
  | succ n ih =>
    unfold Module.resolve
    split
    · rename_i n' a ty heq
      cases heq
      split
      · rename_i A hA
        exact ih (hM A (List.mem_of_find?_eq_some hA))
      · exact hc
    · exact hc

theorem constVal_avoids {c : Constant} {v : Val D.Data} (hc : ∀ g, S g → c.mentions g = false)
    (h : M.constVal D.toDataOps c = some v) : v.Avoids S := by
  have hres := resolve_avoids hM M.aliases.length hc
  rw [Module.constVal] at h
  intro g hg hmention
  have hno := hres g hg
  split at h
  · cases h
    exact hmention
  · rename_i heq
    cases h
    rw [heq] at hno
    simp only [Constant.mentions, beq_eq_false_iff_ne] at hno
    exact hno hmention
  · rename_i heq
    cases h
    rw [heq] at hno
    simp only [Constant.mentions, beq_eq_false_iff_ne] at hno
    exact hno hmention
  · rename_i heq
    cases h
    rw [heq] at hno
    simp only [Constant.mentions, beq_eq_false_iff_ne] at hno
    exact hno hmention
  · rw [D.constant_mentions _ _ _ h hmention] at hno
    cases hno

theorem operandVal_avoids {fr : Frame D.toDataOps} (hfr : fr.Clean S) {u : Value} {v : Val D.Data}
    (hu : ∀ g, S g → u.mentions g = false) (h : M.operandVal fr u = some v) : v.Avoids S := by
  cases u with
  | const c => exact constVal_avoids hM hu h
  | inst id op ty => exact hfr.locals id v h
  | arg i ty => exact hfr.args v (List.mem_of_getElem? h)
  | block b =>
    cases h
    exact fun _ _ hm => hm
  | inlineAsm =>
    cases h
    exact fun _ _ hm => hm
  | metadata n =>
    cases h
    exact fun _ _ hm => hm

/-- The operand values of a quiet instruction are clean. -/
theorem operandVals_avoid {fr : Frame D.toDataOps} (hfr : fr.Clean S) {I : Instruction}
    {vs : List (Val D.Data)} (hI : Quiet S I) (h : M.operandVals fr I = some vs) :
    ∀ v ∈ vs, v.Avoids S := by
  intro v hv
  obtain ⟨u, hu, huv⟩ := exists_of_mapM h v hv
  exact operandVal_avoids hM hfr (hI u hu) huv

end Operands

/-! ### Frames -/

section Frames

variable {M : Module} {fr fr' : Frame D.toDataOps}

theorem Frame.Clean.set (hfr : fr.Clean S) (id : ℕ) {v : Val D.Data} (hv : v.Avoids S) :
    (fr.set id v).Clean S where
  locals i u hu := by
    simp only [Frame.set] at hu
    split at hu
    · cases hu
      exact hv
    · exact hfr.locals i u hu
  args := hfr.args
  pad := hfr.pad

theorem Frame.Clean.setAll (is : List Instruction) {vs : List (Val D.Data)} (hfr : fr.Clean S)
    (hvs : ∀ v ∈ vs, v.Avoids S) : (fr.setAll is vs).Clean S := by
  induction is generalizing fr vs with
  | nil => exact hfr
  | cons I is ih =>
    cases vs with
    | nil => exact hfr
    | cons v vs =>
      exact ih (hfr.set I.id (hvs v List.mem_cons_self)) fun u hu => hvs u (List.mem_cons_of_mem _ hu)

theorem Frame.Clean.jump (hfr : fr.Clean S) {b : ℕ} {pad : Option (Val D.Data)}
    (hpad : ∀ v, pad = some v → v.Avoids S) (h : M.jump fr b pad = some fr') : fr'.Clean S := by
  obtain ⟨B, -, rfl⟩ := Option.map_eq_some_iff.mp h
  exact ⟨hfr.locals, hfr.args, hpad⟩

theorem Frame.Clean.deliver (hfr : fr.Clean S) {site : Instruction} {v : Val D.Data}
    (hv : v.Avoids S) (h : M.deliver fr site v = some fr') : fr'.Clean S := by
  have hset := hfr.set site.id hv
  rw [Module.deliver] at h
  split at h
  · cases h
    exact hset
  · obtain ⟨b, -, hj⟩ := Option.bind_eq_some_iff.mp h
    exact hset.jump hfr.pad hj
  · obtain ⟨b, -, hj⟩ := Option.bind_eq_some_iff.mp h
    exact hset.jump hfr.pad hj
  · cases h

theorem Frame.Clean.enter {F : Function} {args : List (Val D.Data)} (hargs : ∀ v ∈ args, v.Avoids S)
    (h : F.enter args = some fr) : fr.Clean S := by
  obtain ⟨E, -, rfl⟩ := Option.map_eq_some_iff.mp h
  exact ⟨fun _ _ h => (nomatch h), hargs, fun _ h => (nomatch h)⟩

theorem mem_callArgVals {vs : List (Val D.Data)} {v : Val D.Data} (h : v ∈ callArgVals vs) : v ∈ vs :=
  List.dropLast_subset _ (List.mem_of_mem_filter h)

/-- The values phi nodes take are clean. -/
theorem phiVals_avoid (hM : AliasesAvoid S M) (hfr : fr.Clean S) {phis : List Instruction}
    {vs : List (Val D.Data)} (hphis : ∀ I ∈ phis, Quiet S I) (h : M.phiVals fr phis = some vs) :
    ∀ v ∈ vs, v.Avoids S := by
  intro v hv
  obtain ⟨I, hI, hval⟩ := exists_of_mapM h v hv
  split at hval
  · obtain ⟨p, hp, hval⟩ := Option.bind_eq_some_iff.mp hval
    have hmem := (List.of_mem_zip (List.mem_of_find?_eq_some hp)).1
    exact operandVal_avoids hM hfr (hphis I hI p.1 hmem) hval
  · cases hval

/-- Where a transfer of control with clean values leads, its values are clean. -/
theorem transfer_avoids (hfr : fr.Clean S) {I : Instruction} {vs : List (Val D.Data)}
    (hvs : ∀ v ∈ vs, v.Avoids S) {t : Transfer (Val D.Data)} (h : transfer I fr.pad vs = some t) :
    (∀ b e, t = .goto b (some e) → e.Avoids S) ∧ ∀ e, t = .raise e → e.Avoids S := by
  have hall : ∀ u ∈ fr.pad.toList ++ vs, u.Avoids S := by
    intro u hu
    rcases List.mem_append.mp hu with hu | hu
    · exact hfr.pad u (Option.mem_toList.mp hu)
    · exact hvs u hu
  have hdispatch : ∀ t, D.dispatch I fr.pad vs = some t →
      (∀ b e, t = .goto b (some e) → e.Avoids S) ∧ ∀ e, t = .raise e → e.Avoids S := by
    refine fun t ht => ⟨fun b e hbe g hg hm => ?_, fun e he g hg hm => ?_⟩
    · subst hbe
      obtain ⟨u, hu, hum⟩ := D.dispatch_goto_mentions _ _ _ _ _ _ ht hm
      exact hall u hu g hg hum
    · subst he
      obtain ⟨u, hu, hum⟩ := D.dispatch_raise_mentions _ _ _ _ _ ht hm
      exact hall u hu g hg hum
  -- a branch keeps the pad or leaves it
  have hbranch : ∀ b pad, (∀ e, pad = some e → fr.pad = some e) → t = .goto b pad →
      (∀ b e, t = .goto b (some e) → e.Avoids S) ∧ ∀ e, t = .raise e → e.Avoids S := by
    intro b pad hpad hb
    subst hb
    refine ⟨fun b' e he => ?_, fun e he => nomatch he⟩
    rw [Transfer.goto.injEq] at he
    exact hfr.pad e (hpad e he.2)
  unfold transfer at h
  split at h
  · exact hbranch _ _ (fun _ he => he) (Option.some.inj h).symm
  · exact hbranch _ _ (fun _ he => he) (Option.some.inj h).symm
  · exact hbranch _ _ (fun _ he => he) (Option.some.inj h).symm
  · exact hbranch _ none (fun _ he => nomatch he) (Option.some.inj h).symm
  · obtain ⟨e, he, rfl⟩ := Option.map_eq_some_iff.mp h
    refine ⟨fun _ _ h => (nomatch h), fun e' he' => ?_⟩
    cases he'
    exact hfr.pad _ he
  · exact hbranch _ _ (fun _ he => he) (Option.some.inj h).symm
  · cases h
    refine ⟨fun _ _ h => (nomatch h), fun e he => ?_⟩
    cases he
    exact hvs _ List.mem_cons_self
  · exact hdispatch t h
  · exact hdispatch t h
  · cases h

end Frames

/-! ### Steps -/

section Steps

variable {M : Module} {s : State D.toDataOps}

theorem State.Clean.withControl (hs : s.Clean S) {c : Control D.toDataOps} {ks : List (Cont D.toDataOps)}
    (hc : c.Clean S) (hks : ∀ k ∈ ks, k.Clean S) : ({ s with control := c, conts := ks }).Clean S :=
  ⟨hc, hks, hs.mem⟩

/-- A state with one more object, or another content of one, is clean if that content is. -/
theorem State.Clean.writeMem (hs : s.Clean S) {o : Obj} {c : D.Content}
    (hc : ¬ Hidden S o → ContentAvoids S c) :
    ∀ o' c', ¬ Hidden S o' → (if o' = o then some c else s.mem o') = some c' → ContentAvoids S c' := by
  intro o' c' ho' hmem
  split at hmem
  · rename_i heq
    cases hmem
    exact hc (heq ▸ ho')
  · exact hs.mem o' c' ho' hmem

theorem State.Clean.returnTo (hs : s.Clean S) {v : Val D.Data} (hv : v.Avoids S)
    {r : Control D.toDataOps × List (Cont D.toDataOps)} (h : M.returnTo v s.conts = some r) :
    ({ s with control := r.1, conts := r.2 }).Clean S := by
  have hc := return_cases h
  have hks := hs.conts
  generalize s.conts = ks at hc hks
  cases hc with
  | frame hd =>
    have hfr : Cont.Clean S (.frame _ _) := hks _ List.mem_cons_self
    exact hs.withControl (Frame.Clean.deliver hfr hv hd) fun k hk => hks k (List.mem_cons_of_mem _ hk)
  | main => exact hs.withControl trivial fun k hk => by cases hk
  | env => exact hs.withControl trivial fun k hk => hks k (List.mem_cons_of_mem _ hk)

theorem State.Clean.unwind (hs : s.Clean S) {exn : Val D.Data} (hexn : exn.Avoids S)
    {r : Control D.toDataOps × List (Cont D.toDataOps)} (h : M.unwind exn s.conts = some r) :
    ({ s with control := r.1, conts := r.2 }).Clean S := by
  have hc := unwind_cases h
  have hks := hs.conts
  generalize s.conts = ks at hc hks
  cases hc with
  | caught _ _ _ hj =>
    have hfr : Cont.Clean S (.frame _ _) := hks _ List.mem_cons_self
    refine hs.withControl (Frame.Clean.jump hfr (fun v hv => ?_) hj) fun k hk =>
      hks k (List.mem_cons_of_mem _ hk)
    cases hv
    exact hexn
  | passed => exact hs.withControl hexn fun k hk => hks k (List.mem_cons_of_mem _ hk)
  | ext => exact hs.withControl trivial fun k hk => hks k (List.mem_cons_of_mem _ hk)
  | terminate => exact hs.withControl trivial fun k hk => by cases hk

/-- An action from outside keeps a state clean. -/
theorem env_clean (hs : s.Clean S) {k : EnvKind} {a : Act D.toDataOps} {s' : State D.toDataOps}
    (hk : s.control = .env k) (ha : Outside S a) (h : M.envStep s k a = some s') : s'.Clean S := by
  have hpush : ∀ {k' : EnvKind} {fr : Frame D.toDataOps}, fr.Clean S → ∀ hs',
      State.Clean S { s with control := .exec fr, conts := .env k' :: s.conts, handlers := hs' } := by
    refine fun hfr _ => ⟨hfr, fun k hk => ?_, hs.mem⟩
    rcases List.mem_cons.mp hk with rfl | hk
    · trivial
    · exact hs.conts k hk
  cases env_cases h with
  | ret hconts hd =>
    have hfr : Cont.Clean S (.frame _ _) := hs.conts _ (by rw [hconts]; exact .head _)
    exact hs.withControl (Frame.Clean.deliver hfr ha hd) fun k hk =>
      hs.conts k (by rw [hconts]; exact .tail _ hk)
  | throw => exact hs.withControl ha hs.conts
  | callback _ hfr => exact hpush (Frame.Clean.enter ha.2 hfr) _
  | @write _ eff =>
    refine ⟨by rw [hk]; trivial, hs.conts, fun o c ho hmem => ?_⟩
    obtain ⟨c', hc', hmem⟩ := Option.bind_eq_some_iff.mp hmem
    cases heff : eff o with
    | none =>
      rw [heff, Option.getD_none, Option.some.injEq] at hmem
      subst hmem
      exact hs.mem o c' ho hc'
    | some d =>
      rw [heff, Option.getD_some] at hmem
      subst hmem
      exact ha.2 o c heff
  | malloc => exact ⟨by rw [hk]; trivial, hs.conts, hs.writeMem fun _ => ha⟩
  | exit => exact hs.withControl trivial fun k hk => by cases hk
  | runMain _ _ hfr => exact hpush (Frame.Clean.enter ha hfr) _
  | skipHandler => exact ⟨by rw [hk]; trivial, hs.conts, hs.mem⟩
  | runHandler _ _ hfr => exact hpush (Frame.Clean.enter (fun v hv => by cases hv) hfr) _
  | finish => exact hs.withControl trivial hs.conts
  | abort => exact hs.withControl trivial hs.conts

theorem cleanEvent_env {a : Act D.toDataOps} (h : CleanEvent S (envEvent s a)) : Outside S a := by
  cases a with
  | runHandler => trivial
  | _ => exact h

/-- **A step that executes quiet instructions, or is an action from outside, keeps a state clean.** -/
theorem step_clean (hM : AliasesAvoid S M) {s' : State D.toDataOps} {a : Act D.toDataOps}
    {e : Event D.toDataOps} (hs : s.Clean S) (he : CleanEvent S e) (h : M.step s a = some (e, s')) :
    s'.Clean S := by
  -- the running frame, moved past its first instruction, and the operand values of that instruction
  have hrun : ∀ {fr : Frame D.toDataOps}, s.control = .exec fr → fr.Clean S := by
    intro fr hc
    have hcl := hs.control
    rwa [hc] at hcl
  have hmoved : ∀ {fr : Frame D.toDataOps} {rest : List Instruction}, s.control = .exec fr →
      ({ fr with todo := rest } : Frame D.toDataOps).Clean S := fun hc =>
    ⟨(hrun hc).locals, (hrun hc).args, (hrun hc).pad⟩
  have hvals : ∀ {fr : Frame D.toDataOps} {I : Instruction} {vs : List (Val D.Data)},
      s.control = .exec fr → CleanEvent S (.exec fr.fn fr.block [I] vs : Event D.toDataOps) →
      M.operandVals fr I = some vs → ∀ v ∈ vs, v.Avoids S := fun hc he hvs =>
    operandVals_avoid hM (hrun hc) (he _ List.mem_cons_self) hvs
  have hframe : ∀ {fr : Frame D.toDataOps} {I : Instruction} {rest : List Instruction},
      s.control = .exec fr → ∀ k ∈ Cont.frame { fr with todo := rest } I :: s.conts, k.Clean S := by
    intro fr I rest hc k hk
    rcases List.mem_cons.mp hk with rfl | hk
    · exact hmoved hc
    · exact hs.conts k hk
  cases step_cases h with
  | @phis fr I rest vs hc ht hphi hvs =>
    have hset := (hrun hc).setAll (fr.todo.takeWhile Instruction.isPhi)
      (phiVals_avoid hM (hrun hc) he hvs)
    exact hs.withControl ⟨hset.locals, hset.args, hset.pad⟩ hs.conts
  | value hc ht hk hvs hv =>
    refine hs.withControl ((hmoved hc).set _ fun g hg hm => ?_) hs.conts
    obtain ⟨u, hu, hum⟩ := D.eval_mentions _ _ _ _ _ hv hm
    rcases List.mem_append.mp hu with hu | hu
    · exact (hrun hc).pad u (Option.mem_toList.mp hu) g hg hum
    · exact hvals hc he hvs u hu g hg hum
  | alloca hc ht hk hvs hc' =>
    refine ⟨(hmoved hc).set _ (avoids_dyn _ _), hs.conts, hs.writeMem fun _ g hg hm => ?_⟩
    obtain ⟨u, hu, hum⟩ := D.alloc_mentions _ _ _ _ hc' hm
    exact hvals hc he hvs u hu g hg hum
  | @memory fr I rest vs o off c c' v hc ht hk hvs hptr hmem hacc =>
    have hptr' := hvals hc he hvs _ (List.mem_of_getElem? hptr)
    have hold : ContentAvoids S c := hs.mem o c hptr'.not_hidden hmem
    have hnew : ∀ g, S g → ¬ (D.contentMentions c' g ∨ v.Mentions D.dataMentions g) := by
      intro g hg hm
      rcases D.access_mentions _ _ _ _ _ _ _ hacc hm with hm | ⟨u, hu, hum⟩
      · exact hold g hg hm
      · exact hvals hc he hvs u hu g hg hum
    exact ⟨(hmoved hc).set _ fun g hg hm => hnew g hg (.inr hm), hs.conts,
      hs.writeMem fun _ g hg hm => hnew g hg (.inl hm)⟩
  | register hc ht hk hvs _ _ _ _ _ hd =>
    exact ⟨(hmoved hc).deliver (avoids_int _) hd, hs.conts, hs.mem⟩
  | callOut hc => exact hs.withControl trivial (hframe hc)
  | callIn hc ht hk hvs _ _ hfr =>
    exact hs.withControl (.enter (fun v hv => hvals hc he hvs v (mem_callArgVals hv)) hfr) (hframe hc)
  | @ret fr I rest vs r hc ht hk hvs hr =>
    refine hs.returnTo ?_ hr
    cases vs with
    | nil => exact avoids_void
    | cons v vs => exact hvals hc he hvs v List.mem_cons_self
  | goto hc ht hk hvs htr hj =>
    have htr' := (transfer_avoids (hrun hc) (hvals hc he hvs) htr).1
    refine hs.withControl ((hmoved hc).jump (fun v hv => ?_) hj) hs.conts
    subst hv
    exact htr' _ _ rfl
  | raise hc ht hk hvs htr =>
    exact hs.withControl ((transfer_avoids (hrun hc) (hvals hc he hvs) htr).2 _ rfl) hs.conts
  | unwind hc hr =>
    have hexn := hs.control
    rw [hc] at hexn
    exact hs.unwind hexn hr
  | env hk henv => exact env_clean hs hk (cleanEvent_env he) henv

/-- **The registrations after a quiet step**: the same, one more that is not in `S`, or all but the one that
was run. -/
theorem step_registrations (hM : AliasesAvoid S M) {s' : State D.toDataOps} {a : Act D.toDataOps}
    {e : Event D.toDataOps} (hs : s.Clean S) (he : CleanEvent S e) (h : M.step s a = some (e, s')) :
    s'.handlers = s.handlers ∨ (∃ g, ¬ S g ∧ s'.handlers = g :: s.handlers) ∨
      ∃ g, e = .handler g ∧ s.handlers = g :: s'.handlers := by
  cases step_cases h with
  | @register fr I rest vs a A h' fr' hc ht hk hvs _ _ _ _ hargs hd =>
    have hfr : fr.Clean S := by
      have hcl := hs.control
      rwa [hc] at hcl
    have hmem : (.ptr (.global h') 0 : Val D.Data) ∈ vs :=
      mem_callArgVals (by rw [hargs]; exact List.mem_cons_self)
    have hquiet : Quiet S I := he I List.mem_cons_self
    exact .inr (.inl ⟨h', fun hS => operandVals_avoid hM hfr hquiet hvs _ hmem h' hS rfl, rfl⟩)
  | env hk henv =>
    have hrun : ∀ {g rest}, s.handlers = g :: rest →
        ∃ g', envEvent s .runHandler = .handler g' ∧ s.handlers = g' :: rest := by
      intro g rest hhs
      refine ⟨g, ?_, hhs⟩
      rw [envEvent, hhs, List.headD_cons]
    cases env_cases henv with
    | skipHandler hhs => exact .inr (.inr (hrun hhs))
    | runHandler hhs => exact .inr (.inr (hrun hhs))
    | _ => exact .inl rfl
  | _ => exact .inl rfl

/-- What a quiet step registers with `atexit` is not in `S`. -/
theorem step_handlers (hM : AliasesAvoid S M) {s' : State D.toDataOps} {a : Act D.toDataOps}
    {e : Event D.toDataOps} (hs : s.Clean S) (he : CleanEvent S e) (h : M.step s a = some (e, s')) :
    ∀ g ∈ s'.handlers, g ∈ s.handlers ∨ ¬ S g := by
  intro g hg
  rcases step_registrations hM hs he h with hsame | ⟨g', hg', hmore⟩ | ⟨g', -, hless⟩
  · exact .inl (hsame ▸ hg)
  · rw [hmore] at hg
    rcases List.mem_cons.mp hg with rfl | hg
    · exact .inr hg'
    · exact .inl hg
  · rw [hless]
    exact .inl (List.mem_cons_of_mem _ hg)

/-- **Before anything ran, a state is clean**: the initializers do not refer to the globals in `S`, and
what is imported does not know them. -/
theorem initState_clean {imports : ℕ → Option D.Content}
    (hinit : ∀ G ∈ M.globals, ∀ c, G.initializer = some c → ∀ g, S g → ¬ S G.id → c.mentions g = false)
    (himports : ∀ g c, imports g = some c → ContentAvoids S c) :
    (M.initState (D := D.toDataOps) imports).Clean S := by
  refine ⟨trivial, fun k hk => (nomatch hk), fun o c ho hmem g hg hm => ?_⟩
  cases o with
  | dyn n => cases hmem
  | global g' =>
    obtain ⟨G, hG, hmem⟩ := Option.bind_eq_some_iff.mp hmem
    have hid : G.id = g' := by simpa using List.find?_some hG
    cases hini : G.initializer with
    | none =>
      rw [hini] at hmem
      exact himports g' c hmem g hg hm
    | some c' =>
      rw [hini, Option.some.injEq] at hmem
      subst hmem
      have hno := hinit G (List.mem_of_find?_eq_some hG) c' hini g hg (hid ▸ ho)
      rw [D.init_mentions _ _ _ hm] at hno
      cases hno

end Steps

end SnippetsLlvm.Ir
