import SnippetsLlvm.Ir.Steps
import SnippetsLlvm.Ir.WellFormed
import Mathlib.Logic.Relation

/-!
# Control follows the graph

The machine sends control where a terminator says; the graph of a function is what the terminators list.  This
file connects the two: on every run, a frame came to its block from the entry of its function along edges of the
graph, through blocks that have run.

* `GoesToBlocks`, `FollowsTargets` — what the destinations of a terminator are, and that the operations on data
  choose among them;
* `transfer_mem`, `deliver_flow` — where control goes from a terminator;
* `Flows`, `flows_of_run` — **every frame came along a path of blocks that have run**;
* `came_of_exec` — the same of every block that runs.
-/

namespace SnippetsLlvm.Ir

open SnippetsLlvm.Library

/-! ### Destinations -/

/-- The cases of a `switch`: a value and a block each. -/
def CasesToBlocks : List Value → Prop
  | [] => True
  | _ :: .block _ :: rest => CasesToBlocks rest
  | _ => False

/-- The destinations of a terminator are blocks, as the classes of terminators have them. -/
def Instruction.GoesToBlocks (I : Instruction) : Prop :=
  match I.opcode with
  | .br => (∃ b, I.operands = [.block b]) ∨ ∃ c f t, I.operands = [c, .block f, .block t]
  | .switch => ∃ v d cases, I.operands = v :: .block d :: cases ∧ CasesToBlocks cases
  | .catchRet => ∃ p b, I.operands = [p, .block b]
  | .cleanupRet => ∃ p, I.operands = [p] ∨ ∃ b, I.operands = [p, .block b]
  | _ => True

/-- `indirectbr`, `catchswitch` and `callbr` go to one of the blocks they list. -/
structure DataOps.FollowsTargets (D : DataOps) : Prop where
  dispatch : ∀ I pad vs b e, D.dispatch I pad vs = some (.goto b e) → b ∈ I.blockOperands
  asmTarget : ∀ I v b, D.asmTarget I v = some b → b ∈ I.blockOperands

variable {M : Module} {D : DataOps}

/-- The values of operands, one by one. -/
theorem forall₂_operandVals {fr : Frame D} {ops : List Value} {vs : List (Val D.Data)}
    (h : ops.mapM (M.operandVal fr) = some vs) : List.Forall₂ (fun o v => M.operandVal fr o = some v) ops vs := by
  induction ops generalizing vs with
  | nil =>
    cases h
    exact .nil
  | cons o ops ih =>
    rw [List.mapM_cons] at h
    obtain ⟨v, hv, h⟩ := Option.bind_eq_some_iff.mp h
    obtain ⟨vs', hvs', h⟩ := Option.bind_eq_some_iff.mp h
    cases h
    exact .cons hv (ih hvs')

theorem operandVal_block {fr : Frame D} {b : ℕ} {v : Val D.Data} (h : M.operandVal fr (.block b) = some v) :
    v = .block b :=
  (Option.some.inj h).symm

theorem mem_blockOperands {I : Instruction} {b : ℕ} : b ∈ I.blockOperands ↔ .block b ∈ I.operands := by
  rw [Instruction.blockOperands, List.mem_filterMap]
  constructor
  · rintro ⟨v, hv, hb⟩
    split at hb
    · cases hb
      exact hv
    · cases hb
  · intro hb
    exact ⟨_, hb, rfl⟩

/-- **A `switch` goes to its default or to the block of a case.** -/
theorem switchTarget_mem {fr : Frame D} {w n d : ℕ} {ops : List Value} {vs : List (Val D.Data)}
    (hops : CasesToBlocks ops) (hvs : List.Forall₂ (fun o v => M.operandVal fr o = some v) ops vs) :
    switchTarget w n d vs = d ∨ .block (switchTarget w n d vs) ∈ ops := by
  induction ops using CasesToBlocks.induct generalizing vs with
  | case1 =>
    cases hvs
    exact .inl rfl
  | case2 o b rest ih =>
    obtain _ | @⟨_, v, _, _, -, hvs⟩ := hvs
    obtain _ | @⟨_, u, _, vs, hb, hvs⟩ := hvs
    obtain rfl := operandVal_block hb
    have hrest := (ih hops hvs).imp_right fun hmem => List.mem_cons_of_mem o (List.mem_cons_of_mem (.block b) hmem)
    cases v with
    | int w' v =>
      rw [switchTarget]
      split
      · exact .inr (List.mem_cons_of_mem _ List.mem_cons_self)
      · exact hrest
    | _ => exact .inl rfl
  | case3 ops hnil hcons =>
    rw [CasesToBlocks] at hops
    · exact hops.elim
    · exact hnil
    · exact hcons

/-- **A terminator sends control to one of its blocks.** -/
theorem transfer_mem (hD : D.FollowsTargets) {fr : Frame D} {I : Instruction} {pad : Option (Val D.Data)}
    {vs : List (Val D.Data)} {b : ℕ} {pad' : Option (Val D.Data)} (hI : I.GoesToBlocks)
    (hvs : M.operandVals fr I = some vs) (h : transfer I pad vs = some (.goto b pad')) :
    b ∈ I.blockOperands := by
  replace hvs := forall₂_operandVals hvs
  have hblock : ∀ {b c : ℕ}, M.operandVal fr (.block b) = some (.block c) → b = c := by
    intro b c h
    cases operandVal_block h
    rfl
  unfold transfer at h
  rw [Instruction.GoesToBlocks] at hI
  split at h
  · rename_i c hop
    cases h
    rw [hop] at hI
    rcases hI with ⟨x, hops⟩ | ⟨x, f, t, hops⟩
    · rw [hops] at hvs
      obtain rfl := hblock (List.forall₂_cons.mp hvs).1
      simp [mem_blockOperands, hops]
    · simp [hops] at hvs
  · rename_i c f' t' hop
    cases h
    rw [hop] at hI
    rcases hI with ⟨x, hops⟩ | ⟨x, f, t, hops⟩
    · simp [hops] at hvs
    · rw [hops] at hvs
      obtain ⟨-, hf, ht⟩ := by simpa only [List.forall₂_cons] using hvs
      obtain rfl := hblock hf
      obtain rfl := hblock ht.1
      split <;> simp [mem_blockOperands, hops]
  · rename_i w v d' cases' hop
    cases h
    rw [hop] at hI
    obtain ⟨x, d, cs, hops, hcases⟩ := hI
    rw [hops] at hvs
    obtain ⟨-, hd, hcs⟩ := by simpa only [List.forall₂_cons] using hvs
    obtain rfl := hblock hd
    rw [mem_blockOperands, hops]
    rcases switchTarget_mem (w := w) (n := v.toNat) (d := d) hcases hcs with heq | hmem
    · rw [heq]
      simp
    · exact List.mem_cons_of_mem _ (List.mem_cons_of_mem _ hmem)
  · rename_i p' c hop
    cases h
    rw [hop] at hI
    obtain ⟨p, x, hops⟩ := hI
    rw [hops] at hvs
    obtain ⟨-, hx, -⟩ := by simpa only [List.forall₂_cons] using hvs
    obtain rfl := hblock hx
    simp [mem_blockOperands, hops]
  · cases pad <;> cases h
  · rename_i p' c hop
    cases h
    rw [hop] at hI
    obtain ⟨p, hops | ⟨x, hops⟩⟩ := hI
    · simp [hops] at hvs
    · rw [hops] at hvs
      obtain ⟨-, hx, -⟩ := by simpa only [List.forall₂_cons] using hvs
      obtain rfl := hblock hx
      simp [mem_blockOperands, hops]
  · cases h
  · exact hD.dispatch _ _ _ _ _ h
  · exact hD.dispatch _ _ _ _ _ h
  · cases h

/-- A delivered result leads to the next instruction, or to a block of the call that ends its block. -/
theorem deliver_flow (hD : D.FollowsTargets) {fr fr' : Frame D} {site : Instruction} {v : Val D.Data}
    (h : M.deliver fr site v = some fr') : fr'.fn = fr.fn ∧ (fr'.block = fr.block ∨
      site.isTerminator = true ∧ fr'.block ∈ site.blockOperands) := by
  rw [Module.deliver] at h
  split at h
  · cases h
    exact ⟨rfl, .inl rfl⟩
  · rename_i ft hop
    obtain ⟨b, hb, hj⟩ := Option.bind_eq_some_iff.mp h
    obtain ⟨-, -, -, hfn, rfl, -⟩ := jump_inv hj
    exact ⟨hfn, .inr ⟨by simp [Instruction.isTerminator, hop, Opcode.isTerminator], List.mem_of_getElem? hb⟩⟩
  · rename_i ft hop
    obtain ⟨b, hb, hj⟩ := Option.bind_eq_some_iff.mp h
    obtain ⟨-, -, -, hfn, rfl, -⟩ := jump_inv hj
    exact ⟨hfn, .inr ⟨by simp [Instruction.isTerminator, hop, Opcode.isTerminator], hD.asmTarget _ _ _ hb⟩⟩
  · cases h

/-- The graph has an edge for every block a terminator lists, and no other. -/
theorem mem_successors_of_terminator (hM : M.WellFormed) {g b c : ℕ} {F : Function} {B : BasicBlock}
    {I : Instruction} (hF : M.function? g = some F) (hB : M.block? g b = some B) (hI : I ∈ B.insts)
    (hterm : I.isTerminator = true) : c ∈ F.successors b ↔ c ∈ I.blockOperands := by
  rw [Module.block?, hF, Option.bind_some] at hB
  have hwf := (hM.functions F (Module.mem_of_function? hF).1).blocks B (List.mem_of_find?_eq_some hB)
  obtain ⟨body, t, hinsts, ht, hbody⟩ := hwf.terminator
  have heq : I = t := by
    rw [hinsts] at hI
    rcases List.mem_append.mp hI with hI | hI
    · rw [hbody I hI] at hterm
      cases hterm
    · exact List.mem_singleton.mp hI
  have hlast : B.getTerminator = some t := by
    rw [BasicBlock.getTerminator, hinsts, List.getLast?_concat, Option.filter_some, if_pos ht]
  rw [Function.successors, hB]
  show c ∈ B.successors ↔ _
  rw [BasicBlock.successors, hlast, heq]
  exact t.mem_successors ht

/-- What a frame has still to do is in its block. -/
theorem Frame.At.mem_block {fr : Frame D} (h : fr.At M) {I : Instruction} (hI : I ∈ fr.todo) :
    ∃ B, M.block? fr.fn fr.block = some B ∧ I ∈ B.insts := by
  obtain ⟨B, hB, pre, hpre⟩ := h
  refine ⟨B, hB, ?_⟩
  rw [hpre]
  exact List.mem_append_right _ hI

theorem mem_insts_of_block {g b : ℕ} {B : BasicBlock} {I : Instruction} (hB : M.block? g b = some B)
    (hI : I ∈ B.insts) : ∃ F ∈ M.functions, I ∈ F.insts := by
  obtain ⟨F, hF, hB⟩ := Option.bind_eq_some_iff.mp hB
  exact ⟨F, (Module.mem_of_function? hF).1, List.mem_flatMap.mpr ⟨B, List.mem_of_find?_eq_some hB, hI⟩⟩

/-! ### Paths of blocks that have run -/

/-- Some of the events show the block run. -/
def Ran (es : List (Event D)) (g b : ℕ) : Prop := ∃ is vs, .exec g b is vs ∈ es

/-- An edge of the graph of `F` from a block that has run. -/
def RanEdge (es : List (Event D)) (g : ℕ) (F : Function) (a b : ℕ) : Prop := b ∈ F.successors a ∧ Ran es g a

/-- The frame came to its block from the entry, through blocks that have run. -/
def Frame.Came (M : Module) (es : List (Event D)) (fr : Frame D) : Prop :=
  ∃ F E, M.function? fr.fn = some F ∧ F.blocks.head? = some E ∧
    Relation.ReflTransGen (RanEdge es fr.fn F) E.id fr.block

/-- All frames came along such paths, and what waits has run. -/
structure Flows (M : Module) (es : List (Event D)) (s : State D) : Prop where
  positioned : Positioned M s
  control : ∀ fr, s.control = .exec fr → fr.Came M es
  conts : ∀ fr site, .frame fr site ∈ s.conts → fr.Came M es ∧ Ran es fr.fn fr.block

/-- Where no frame runs, the waiting ones are all there is. -/
theorem Flows.idle {es : List (Event D)} {s : State D} (hpos : Positioned M s) (hidle : ∀ fr, s.control ≠ .exec fr)
    (hconts : ∀ fr site, .frame fr site ∈ s.conts → fr.Came M es ∧ Ran es fr.fn fr.block) : Flows M es s :=
  ⟨hpos, fun fr hfr => absurd hfr (hidle fr), hconts⟩

theorem Ran.append {es es' : List (Event D)} {g b : ℕ} (h : Ran es g b) : Ran (es ++ es') g b := by
  obtain ⟨is, vs, hmem⟩ := h
  exact ⟨is, vs, List.mem_append_left _ hmem⟩

namespace Frame.Came

variable {es : List (Event D)} {fr fr' : Frame D} (h : fr.Came M es)
include h

/-- More events, and the same block. -/
theorem stay (es' : List (Event D)) (hfn : fr'.fn = fr.fn) (hblock : fr'.block = fr.block) :
    fr'.Came M (es ++ es') := by
  obtain ⟨F, E, hF, hE, hpath⟩ := h
  refine ⟨F, E, hfn ▸ hF, hE, ?_⟩
  rw [hfn, hblock]
  exact Relation.ReflTransGen.mono (fun _ _ hab => ⟨hab.1, hab.2.append⟩) _ _ hpath

/-- One more edge, from a block that has run. -/
theorem move (hM : M.WellFormed) {es' : List (Event D)} {B : BasicBlock} {I : Instruction}
    (hran : Ran (es ++ es') fr.fn fr.block) (hB : M.block? fr.fn fr.block = some B) (hI : I ∈ B.insts)
    (hterm : I.isTerminator = true) (hfn : fr'.fn = fr.fn) (hblock : fr'.block ∈ I.blockOperands) :
    fr'.Came M (es ++ es') := by
  obtain ⟨F, E, hF, hE, hpath⟩ := h.stay es' rfl rfl
  refine ⟨F, E, hfn ▸ hF, hE, ?_⟩
  rw [hfn]
  refine hpath.tail ⟨?_, hran⟩
  exact (mem_successors_of_terminator hM hF hB hI hterm).mpr hblock

end Frame.Came

theorem came_enter {g : ℕ} {F : Function} {args : List (Val D.Data)} {fr : Frame D} (es : List (Event D))
    (hF : M.function? g = some F) (h : F.enter args = some fr) : fr.Came M es := by
  obtain ⟨E, hE, hB, -, rfl⟩ := enter_inv hF h
  refine ⟨F, E, hF, hE, ?_⟩
  rw [block?_id hB]

/-! ### One step, and a run -/

section Step

variable (hM : M.WellFormed) (hD : D.FollowsTargets)
include hM hD

/-- A result is delivered along an edge. -/
theorem Frame.Came.deliver {es es' : List (Event D)} {fr fr' : Frame D} {site : Instruction} {v : Val D.Data}
    (h : fr.Came M es) (hran : Ran (es ++ es') fr.fn fr.block) (hwaits : fr.WaitsAt M site)
    (hd : M.deliver fr site v = some fr') : fr'.Came M (es ++ es') := by
  obtain ⟨hfn, hblock | ⟨hterm, hblock⟩⟩ := deliver_flow hD hd
  · exact h.stay es' hfn hblock
  · obtain ⟨B, hB, pre, hpre⟩ := hwaits
    refine h.move hM hran hB ?_ hterm hfn hblock
    rw [hpre]
    exact List.mem_append_right _ List.mem_cons_self

/-- **What one step does to the paths.** -/
theorem step_flows (hto : ∀ F ∈ M.functions, ∀ I ∈ F.insts, I.GoesToBlocks) {es : List (Event D)} {s s' : State D}
    {a : Act D} {e : Event D} (hs : Flows M es s) (h : M.step s a = some (e, s')) : Flows M (es ++ [e]) s' := by
  have hran : ∀ fr, s.control = .exec fr → Ran (es ++ [e]) fr.fn fr.block := by
    intro fr hc
    obtain ⟨is, vs, rfl⟩ := exec_event hc h
    exact ⟨is, vs, List.mem_append_right _ (List.mem_singleton_self _)⟩
  have hold : ∀ fr site, .frame fr site ∈ s.conts →
      fr.Came M (es ++ [e]) ∧ Ran (es ++ [e]) fr.fn fr.block := by
    intro fr site hmem
    obtain ⟨hcame, hwait⟩ := hs.conts fr site hmem
    exact ⟨hcame.stay [e] rfl rfl, hwait.append⟩
  have hrest : ∀ {k ks}, s.conts = k :: ks → ∀ fr site, .frame fr site ∈ ks →
      fr.Came M (es ++ [e]) ∧ Ran (es ++ [e]) fr.fn fr.block := by
    intro k ks hconts fr site hmem
    exact hold fr site (by rw [hconts]; exact List.mem_cons_of_mem _ hmem)
  -- the calling frame joins those that wait
  have hcall : ∀ {fr I rest}, s.control = .exec fr → fr.todo = I :: rest → ∀ fr' site,
      .frame fr' site ∈ Cont.frame { fr with todo := rest } I :: s.conts →
        fr'.Came M (es ++ [e]) ∧ Ran (es ++ [e]) fr'.fn fr'.block := by
    intro fr I rest hc ht fr' site hmem
    rcases List.mem_cons.mp hmem with heq | hmem
    · cases heq
      exact ⟨(hs.control fr hc).stay [e] rfl rfl, hran fr hc⟩
    · exact hold fr' site hmem
  have hpos := step_positioned hs.positioned h
  have henter : ∀ {k g F args fr hds}, M.function? g = some F → F.enter args = some fr →
      Positioned M { s with control := .exec fr, conts := .env k :: s.conts, handlers := hds } →
      Flows M (es ++ [e]) { s with control := .exec fr, conts := .env k :: s.conts, handlers := hds } := by
    intro k g F args fr hds hF hfr hp
    refine ⟨hp, fun fr' hfr' => ?_, fun fr' site hmem => ?_⟩
    · cases hfr'
      exact came_enter _ hF hfr
    · rcases List.mem_cons.mp hmem with heq | hmem
      · cases heq
      · exact hold fr' site hmem
  cases step_cases h with
  | phis hc ht =>
    refine ⟨hpos, fun fr' hfr' => ?_, hold⟩
    cases hfr'
    exact (hs.control _ hc).stay [_] (by simp) (by simp)
  | value hc ht =>
    refine ⟨hpos, fun fr' hfr' => ?_, hold⟩
    cases hfr'
    exact (hs.control _ hc).stay [_] rfl rfl
  | alloca hc ht =>
    refine ⟨hpos, fun fr' hfr' => ?_, hold⟩
    cases hfr'
    exact (hs.control _ hc).stay [_] rfl rfl
  | memory hc ht =>
    refine ⟨hpos, fun fr' hfr' => ?_, hold⟩
    cases hfr'
    exact (hs.control _ hc).stay [_] rfl rfl
  | @register fr I rest _ _ _ _ _ hc ht _ _ _ _ _ _ _ hd =>
    refine ⟨hpos, fun fr' hfr' => ?_, hold⟩
    cases hfr'
    have hcame : Frame.Came M es { fr with todo := rest } := hs.control fr hc
    exact hcame.deliver hM hD (hran fr hc) ((hs.positioned.control fr hc).waits ht) hd
  | callOut hc ht => exact .idle hpos (by simp) (hcall hc ht)
  | callIn hc ht _ _ _ hA hfr =>
    refine ⟨hpos, fun fr' hfr' => ?_, hcall hc ht⟩
    cases hfr'
    exact came_enter _ hA hfr
  | ret hc _ _ _ hr =>
    have hcase := return_cases hr
    generalize hks : s.conts = ks at hcase
    cases hcase with
    | frame hd =>
      have hmem := hks ▸ List.mem_cons_self
      refine ⟨hpos, fun fr' hfr' => ?_, hrest hks⟩
      cases hfr'
      exact (hs.conts _ _ hmem).1.deliver hM hD (hold _ _ hmem).2 (hs.positioned.conts _ _ hmem) hd
    | main => exact .idle hpos (by simp) (by simp)
    | env => exact .idle hpos (by simp) (hrest hks)
  | goto hc ht hkind hvs htr hj =>
    refine ⟨hpos, fun fr' hfr' => ?_, hold⟩
    cases hfr'
    obtain ⟨B, hB, hI⟩ := (hs.positioned.control _ hc).mem_block (by rw [ht]; exact List.mem_cons_self)
    obtain ⟨-, -, -, hfn, rfl, -⟩ := jump_inv hj
    obtain ⟨F, hF, hIF⟩ := mem_insts_of_block hB hI
    exact (hs.control _ hc).move hM (hran _ hc) hB hI (isTerminator_of_kind (.inr hkind)) hfn
      (transfer_mem hD (hto F hF _ hIF) hvs htr)
  | raise => exact .idle hpos (by simp) hold
  | @unwind exn _ _ hr =>
    have hcase := unwind_cases hr
    generalize Event.unwind (callerOf s.conts) exn = e at *
    generalize hks : s.conts = ks at hcase
    cases hcase with
    | caught hop _ hb hj =>
      have hmem := hks ▸ List.mem_cons_self
      refine ⟨hpos, fun fr' hfr' => ?_, hrest hks⟩
      cases hfr'
      obtain ⟨B, hB, pre, hpre⟩ := hs.positioned.conts _ _ hmem
      obtain ⟨-, -, -, hfn, rfl, -⟩ := jump_inv hj
      refine (hs.conts _ _ hmem).1.move hM (hold _ _ hmem).2 hB ?_ ?_ hfn (List.mem_of_getElem? hb)
      · rw [hpre]
        exact List.mem_append_right _ List.mem_cons_self
      · simp [Instruction.isTerminator, hop, Opcode.isTerminator]
    | terminate => exact .idle hpos (by simp) (by simp)
    | passed => exact .idle hpos (by simp) (hrest hks)
    | ext => exact .idle hpos (by simp) (hrest hks)
  | env hk he =>
    have hidle : ∀ fr, s.control ≠ .exec fr := by
      rw [hk]
      simp
    cases env_cases he with
    | ret hconts hd =>
      have hmem := hconts ▸ List.mem_cons_self
      refine ⟨hpos, fun fr' hfr' => ?_, hrest hconts⟩
      cases hfr'
      exact (hs.conts _ _ hmem).1.deliver hM hD (hold _ _ hmem).2 (hs.positioned.conts _ _ hmem) hd
    | throw => exact .idle hpos (by simp) hold
    | callback hF hfr => exact henter hF hfr hpos
    | write => exact .idle hpos hidle hold
    | malloc => exact .idle hpos hidle hold
    | exit => exact .idle hpos (by simp) (by simp)
    | runMain _ hF hfr => exact henter hF hfr hpos
    | skipHandler => exact .idle hpos hidle hold
    | runHandler _ hF hfr => exact henter hF hfr hpos
    | finish => exact .idle hpos (by simp) hold
    | abort => exact .idle hpos (by simp) hold

/-- **On every run, every frame came along a path of blocks that have run.** -/
theorem flows_of_run (hto : ∀ F ∈ M.functions, ∀ I ∈ F.insts, I.GoesToBlocks) {imports : ℕ → Option D.Content}
    {es : List (Event D)} {s : State D} (hrun : Run M.step (M.initState imports) es s) : Flows M es s := by
  refine Run.traceInvariant (Flows M) (fun _ => True) (fun es s a e t hs _ h => step_flows hM hD hto hs h) hrun
    (fun _ _ => trivial) (.idle (initState_positioned M imports) ?_ ?_)
  · simp [Module.initState]
  · simp [Module.initState]

/-- **What runs was come to**, along a path of blocks that ran before. -/
theorem came_of_exec (hto : ∀ F ∈ M.functions, ∀ I ∈ F.insts, I.GoesToBlocks) {imports : ℕ → Option D.Content}
    {es₁ es₂ : List (Event D)} {g b : ℕ} {is : List Instruction} {vs : List (Val D.Data)} {s : State D}
    (hrun : Run M.step (M.initState imports) (es₁ ++ .exec g b is vs :: es₂) s) :
    ∃ F E, M.function? g = some F ∧ F.blocks.head? = some E ∧
      Relation.ReflTransGen (RanEdge es₁ g F) E.id b := by
  rw [← List.singleton_append, ← List.append_assoc] at hrun
  obtain ⟨u, hexec, -⟩ := hrun.append_inv
  obtain ⟨t, a, hbefore, hstep⟩ := hexec.snoc_inv
  obtain ⟨fr, hc, rfl, rfl, -⟩ := (exec_cases hstep).mem_todo
  exact (flows_of_run hM hD hto hbefore).control fr hc

end Step

end SnippetsLlvm.Ir
