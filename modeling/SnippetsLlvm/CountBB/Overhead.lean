import SnippetsLlvm.CountBB.Report
import SnippetsLlvm.CountBB.Simulation

/-!
# What the counting costs

An instrumented program makes the steps of the original one and those of the inserted code.  The latter are
counted exactly: three for every block counted, one for every registration, and five for every start of the
handler.

* `Resumed` — a frame at the front of its block, or just after a call: wherever control arrives;
* `ahead` — the inserted instructions a frame has before it; none is behind it when it arrives;
* `step_ledger` — what one step adds to the account;
* `length_eq_of_done` — **how much longer the run of the instrumented program is**.
-/

namespace SnippetsLlvm.CountBB

open SnippetsLlvm.Ir SnippetsLlvm.Library

/-! ### Where control arrives -/

section Resumed

variable {M : Module} {D : DataOps}

/-- A frame at the front of its block, or just after a call. -/
def Resumed (M : Module) (fr : Frame D) : Prop :=
  (∃ B, M.block? fr.fn fr.block = some B ∧ fr.todo = B.insts) ∨
    ∃ site ft mt, site.opcode = .call ft mt ∧ fr.WaitsAt M site

theorem resumed_deliver {fr fr' : Frame D} {site : Instruction} {v : Val D.Data} (hw : fr.WaitsAt M site)
    (hd : M.deliver fr site v = some fr') : Resumed M fr' := by
  rcases deliver_inv hd with ⟨ft, mt, hop, rfl⟩ | ⟨-, B, hB, ht, -⟩
  · exact .inr ⟨site, ft, mt, hop, hw⟩
  · exact .inl ⟨B, hB, ht⟩

theorem resumed_jump {fr fr' : Frame D} {b : ℕ} {pad : Option (Val D.Data)} (hj : M.jump fr b pad = some fr') :
    Resumed M fr' := by
  obtain ⟨B, hB, ht, -⟩ := jump_inv hj
  exact .inl ⟨B, hB, ht⟩

theorem resumed_enter {g : ℕ} {F : Function} {args : List (Val D.Data)} {fr : Frame D}
    (hF : M.function? g = some F) (hfr : F.enter args = some fr) : Resumed M fr := by
  obtain ⟨E, -, hE, ht, -⟩ := enter_inv hF hfr
  exact .inl ⟨E, hE, ht⟩

theorem resumed_return {s : State D} {v : Val D.Data} {r : Control D × List (Cont D)} (hs : Positioned M s)
    (hr : M.returnTo v s.conts = some r) {fr : Frame D} (hfr : r.1 = .exec fr) : Resumed M fr := by
  have hc := return_cases hr
  generalize hks : s.conts = ks at hc
  cases hc with
  | frame hd =>
    cases hfr
    exact resumed_deliver (hs.conts _ _ (by rw [hks]; exact List.mem_cons_self)) hd
  | _ => cases hfr

theorem resumed_unwind {ks : List (Cont D)} {exn : Val D.Data} {r : Control D × List (Cont D)}
    (hr : M.unwind exn ks = some r) {fr : Frame D} (hfr : r.1 = .exec fr) : Resumed M fr := by
  cases unwind_cases hr with
  | caught _ _ _ hj =>
    cases hfr
    exact resumed_jump hj
  | _ => cases hfr

theorem resumed_env {s s' : State D} {k : EnvKind} {a : Act D} (hs : Positioned M s) (hk : s.control = .env k)
    (henv : M.envStep s k a = some s') {fr : Frame D} (hfr : s'.control = .exec fr) : Resumed M fr := by
  cases env_cases henv with
  | ret hconts hd =>
    cases hfr
    exact resumed_deliver (hs.conts _ _ (by rw [hconts]; exact List.mem_cons_self)) hd
  | callback hF henter | runMain _ hF henter | runHandler _ hF henter =>
    cases hfr
    exact resumed_enter hF henter
  | write | malloc | skipHandler =>
    rw [hk] at hfr
    cases hfr
  | _ => cases hfr

end Resumed

/-! ### The account -/

section Account

variable (M : Module) {D : DataSem}

/-- The inserted instructions among `is`, in the function `g`. -/
def ahead (g : ℕ) (is : List Instruction) : ℕ := is.countP fun I => !(added M).keeps g I.id

/-- How much of the counting code of its block the running frame has executed. -/
def counting : Control D.toDataOps → ℕ
  | .exec fr => if fr.fn = handlerId M then 0 else 3 - ahead M fr.fn fr.todo
  | _ => 0

/-- The steps the handler has still to make. -/
def reporting (s : State D.toDataOps) : ℕ :=
  match s.control, s.conts with
  | .exec fr, _ => if fr.fn = handlerId M then fr.todo.length + if 2 ≤ fr.todo.length then 1 else 0 else 0
  | .env .ext, .frame fr _ :: _ => if fr.fn = handlerId M then 2 else 0
  | _, _ => 0

/-- One for a step of the inserted code. -/
def hidden (e : Event D.toDataOps) : ℕ := if Shown M e then 0 else 1

/-- What one step adds to the steps of the inserted code, less those of the handler to come, is three for a
block counted, six for a handler started, and the rest of a count or a registration in progress. -/
def Ledger (s : State D.toDataOps) (e : Event D.toDataOps) (s' : State D.toDataOps) : Prop :=
  hidden M e + reporting M s' + counting M s.control + s.handlers.count (handlerId M) =
    reporting M s + 3 * (beginsTerminator (handlerId M) e).toNat + counting M s'.control +
      s'.handlers.count (handlerId M) + 6 * (startsHandler (handlerId M) e).toNat

variable {M}

theorem ahead_append (g : ℕ) (is js : List Instruction) : ahead M g (is ++ js) = ahead M g is + ahead M g js :=
  List.countP_append

theorem ahead_cons (g : ℕ) (I : Instruction) (is : List Instruction) :
    ahead M g (I :: is) = ahead M g is + if (added M).keeps g I.id then 0 else 1 := by
  rw [ahead, List.countP_cons]
  cases (added M).keeps g I.id <;> rfl

theorem ahead_eq_zero {g : ℕ} {is : List Instruction} (h : ∀ I ∈ is, (added M).keeps g I.id = true) :
    ahead M g is = 0 := by
  refine List.countP_eq_zero.mpr fun I hI => ?_
  rw [h I hI]
  decide

theorem counting_exec {fr : Frame D.toDataOps} (hfn : fr.fn ≠ handlerId M) :
    counting M (.exec fr : Control D.toDataOps) = 3 - ahead M fr.fn fr.todo := if_neg hfn

theorem counting_handler {fr : Frame D.toDataOps} (hfn : fr.fn = handlerId M) :
    counting M (.exec fr : Control D.toDataOps) = 0 := if_pos hfn

theorem reporting_program {s : State D.toDataOps} (hks : ProgramStack M s.conts)
    (hfn : ∀ fr, s.control = .exec fr → fr.fn ≠ handlerId M) : reporting M s = 0 := by
  unfold reporting
  split
  · exact if_neg (hfn _ ‹_›)
  · rename_i hconts
    exact if_neg (hks _ _ (by rw [hconts]; exact List.mem_cons_self)).1
  · rfl

theorem reporting_exec {s : State D.toDataOps} {fr : Frame D.toDataOps} (hc : s.control = .exec fr)
    (hfn : fr.fn ≠ handlerId M) : reporting M s = 0 := by
  rw [reporting, hc]
  exact if_neg hfn

theorem reporting_handler {s : State D.toDataOps} {fr : Frame D.toDataOps} (hc : s.control = .exec fr)
    (hfn : fr.fn = handlerId M) :
    reporting M s = fr.todo.length + if 2 ≤ fr.todo.length then 1 else 0 := by
  rw [reporting, hc]
  exact if_pos hfn

theorem hidden_shown {e : Event D.toDataOps} (h : Shown M e) : hidden M e = 0 := if_pos h

theorem hidden_inserted {e : Event D.toDataOps} (h : ¬ Shown M e) : hidden M e = 1 := if_neg h

/-- The events of a run are those of the program and those of the inserted code. -/
theorem length_eq_add (es : List (Event D.toDataOps)) :
    es.length = (es.filterMap (original M)).length + (es.map (hidden M)).sum := by
  induction es with
  | nil => rfl
  | cons e es ih =>
    rw [List.length_cons, ih, List.map_cons, List.sum_cons]
    by_cases hshown : Shown M e
    · rw [List.filterMap_cons_some (original_eq_some hshown), hidden_shown hshown, List.length_cons]
      omega
    · rw [List.filterMap_cons_none (original_eq_none hshown), hidden_inserted hshown]
      omega

end Account

namespace Ready

variable {M : Module} {main : Function} (hM : Ready M main) {D : DataSem}
include hM

theorem ahead_countInsts {g b : ℕ} (K : Counted M g b) : ahead M g (countInsts K.first (counter M)) = 3 := by
  obtain ⟨-, -, hcount⟩ := hM.keeps_insts K
  rw [ahead, List.countP_eq_length.mpr fun J hJ => by rw [hcount J hJ]; rfl]
  rfl

/-- The counting code lies ahead of every instruction of the program but the terminator, and of the
registration. -/
theorem ahead_after {g b : ℕ} (K : Counted M g b) {pre rest : List Instruction} {I : Instruction}
    (hsplit : K.insts main = pre ++ I :: rest) (hI : I ∉ countInsts K.first (counter M)) (hterm : I ≠ K.term) :
    3 ≤ ahead M g rest := by
  have hnot : I ∉ countInsts K.first (counter M) ++ [K.term] := by
    intro hmem
    rcases List.mem_append.mp hmem with hmem | hmem
    · exact hI hmem
    · exact hterm (List.mem_singleton.mp hmem)
  rw [Counted.insts, List.append_assoc] at hsplit
  obtain ⟨post, -, hrest⟩ := split_before hsplit.symm hnot
  rw [hrest, ahead_append, ahead_append, hM.ahead_countInsts K]
  omega

/-- **Where control arrives, the counting code of the block lies ahead.** -/
theorem ahead_resumed {fr : Frame D.toDataOps} (hfr : Resumed (instrumented M main (counter M)) fr)
    (hfn : fr.fn ≠ handlerId M) : 3 ≤ ahead M fr.fn fr.todo := by
  rcases hfr with ⟨B, hB, ht⟩ | ⟨site, ft, mt, hop, B, hB, pre, hpre⟩
  · obtain ⟨K, hK⟩ := hM.block?_inv hfn hB
    rw [ht, hK, Counted.insts, ahead_append, ahead_append, hM.ahead_countInsts K]
    omega
  · obtain ⟨K, hK⟩ := hM.block?_inv hfn hB
    refine hM.ahead_after K (hK.symm.trans hpre) ?_ ?_
    · intro hmem
      simp only [countInsts, List.mem_cons, List.not_mem_nil, or_false] at hmem
      rcases hmem with rfl | rfl | rfl <;> cases hop
    · rintro rfl
      have hterm := K.isTerminator
      rw [Instruction.isTerminator, hop] at hterm
      cases hterm

/-- Where control arrives nothing of the block has been counted. -/
theorem counting_resumed {c : Control D.toDataOps}
    (hc : ∀ fr, c = .exec fr → Resumed (instrumented M main (counter M)) fr) : counting M c = 0 := by
  cases c with
  | exec fr =>
    by_cases hfn : fr.fn = handlerId M
    · exact counting_handler hfn
    · have hle := hM.ahead_resumed (hc fr rfl) hfn
      rw [counting_exec hfn]
      omega
  | _ => rfl

/-- An instruction of the program that comes next: the counting code lies ahead, or it is the terminator and
the block has been counted. -/
theorem counting_kept {fr : Frame D.toDataOps} {I : Instruction} {rest : List Instruction}
    (hfr : fr.At (instrumented M main (counter M))) (hfn : fr.fn ≠ handlerId M) (ht : fr.todo = I :: rest)
    (hkeep : (added M).keeps fr.fn I.id = true) :
    counting M (.exec fr : Control D.toDataOps) = 3 * I.isTerminator.toNat ∧
      (I.isTerminator = false → 3 ≤ ahead M fr.fn rest) := by
  obtain ⟨B, hB, pre, hpre⟩ := hfr
  obtain ⟨K, hK⟩ := hM.block?_inv hfn hB
  obtain ⟨-, -, hcount⟩ := hM.keeps_insts K
  rw [ht] at hpre
  by_cases hterm : I.isTerminator = true
  · have hrest := hM.terminatorsLast_instrumented _ _ B hB pre I rest hpre hterm
    have hzero : ahead M fr.fn fr.todo = 0 := by
      rw [ht, hrest]
      exact ahead_eq_zero fun J hJ => by rw [List.mem_singleton.mp hJ, hkeep]
    rw [counting_exec hfn, hzero, hterm]
    exact ⟨rfl, fun h => (nomatch h)⟩
  · have hle : 3 ≤ ahead M fr.fn rest := by
      refine hM.ahead_after K (hK.symm.trans hpre) (fun hmem => ?_) (fun heq => ?_)
      · rw [hcount I hmem] at hkeep
        cases hkeep
      · exact hterm (heq ▸ K.isTerminator)
    have hsame : ahead M fr.fn fr.todo = ahead M fr.fn rest := by
      rw [ht, ahead_cons, hkeep]
      rfl
    rw [counting_exec hfn, hsame]
    refine ⟨?_, fun _ => hle⟩
    rw [Bool.not_eq_true] at hterm
    rw [hterm]
    show _ = 0
    omega

/-- **A step of the program** ends the count of its block when it begins the terminator, and leaves no count
begun. -/
theorem counting_program {s s' : State D.toDataOps} {a : Act D.toDataOps} {e : Event D.toDataOps}
    (hpos : Positioned (instrumented M main (counter M)) s)
    (hfn : ∀ fr, s.control = .exec fr → fr.fn ≠ handlerId M) (hshown : Shown M e)
    (hstep : (instrumented M main (counter M)).step s a = some (e, s')) :
    counting M s.control = 3 * (beginsTerminator (handlerId M) e).toNat ∧ counting M s'.control = 0 := by
  -- the running frame has counted its block exactly when its terminator comes next
  have hbefore : ∀ {fr I rest vs}, s.control = .exec fr → fr.todo = I :: rest →
      (added M).keeps fr.fn I.id = true → counting M s.control =
        3 * (beginsTerminator (handlerId M) (.exec fr.fn fr.block [I] vs : Event D.toDataOps)).toNat := by
    intro fr I rest vs hc ht hkeep
    have hbegins : beginsTerminator (handlerId M) (.exec fr.fn fr.block [I] vs : Event D.toDataOps) =
        I.isTerminator := by
      simp [beginsTerminator, hfn fr hc]
    rw [hc, (hM.counting_kept (hpos.control fr hc) (hfn fr hc) ht hkeep).1, hbegins]
  -- the frame goes on in its block
  have hmoved : ∀ {fr fr' I rest}, s.control = .exec fr → fr.todo = I :: rest →
      (added M).keeps fr.fn I.id = true → (I.opcode.kind = .value ∨ I.opcode.kind = .alloca ∨
        I.opcode.kind = .memory) → fr'.fn = fr.fn → fr'.todo = rest →
      counting M (.exec fr' : Control D.toDataOps) = 0 := by
    intro fr fr' I rest hc ht hkeep hk hfn' ht'
    have hplain : I.isTerminator = false := by
      by_contra hterm
      rw [Bool.not_eq_false] at hterm
      rcases kind_of_isTerminator hterm with h | h | h <;> simp [h] at hk
    have hle := (hM.counting_kept (hpos.control fr hc) (hfn fr hc) ht hkeep).2 hplain
    have hne : fr'.fn ≠ handlerId M := by
      rw [hfn']
      exact hfn fr hc
    rw [counting_exec hne, hfn', ht']
    omega
  cases step_cases hstep with
  | @phis fr I rest vs hc ht hphi =>
    have hkept : ∀ J ∈ fr.todo.takeWhile Instruction.isPhi, (added M).keeps fr.fn J.id = true := hshown.2
    have hI : (added M).keeps fr.fn I.id = true := by
      refine hkept I ?_
      rw [ht, List.takeWhile_cons_of_pos hphi]
      exact List.mem_cons_self
    obtain ⟨hzero, hle⟩ := hM.counting_kept (hpos.control fr hc) (hfn fr hc) ht hI
    have hplain := isTerminator_of_isPhi hphi
    rw [beginsTerminator_phis, hc, hzero, hplain]
    refine ⟨rfl, ?_⟩
    have hall : ahead M fr.fn fr.todo = ahead M fr.fn (fr.todo.dropWhile Instruction.isPhi) := by
      rw [← List.takeWhile_append_dropWhile (p := Instruction.isPhi) (l := fr.todo), ahead_append,
        ahead_eq_zero hkept, Nat.zero_add, List.takeWhile_append_dropWhile]
    have hfront : ahead M fr.fn fr.todo = ahead M fr.fn rest := by
      rw [ht, ahead_cons, hI]
      rfl
    have hrest := hle hplain
    have hne : ({ fr.setAll (fr.todo.takeWhile Instruction.isPhi) vs with
        todo := fr.todo.dropWhile Instruction.isPhi } : Frame D.toDataOps).fn ≠ handlerId M := by
      show (fr.setAll _ vs).fn ≠ _
      rw [Frame.setAll_fn]
      exact hfn fr hc
    rw [counting_exec hne]
    show 3 - ahead M (fr.setAll _ vs).fn _ = 0
    rw [Frame.setAll_fn, ← hall, hfront]
    omega
  | value hc ht hk =>
    have hkeep := hshown.2 _ List.mem_cons_self
    exact ⟨hbefore hc ht hkeep, hmoved hc ht hkeep (.inl hk) rfl rfl⟩
  | alloca hc ht hk =>
    have hkeep := hshown.2 _ List.mem_cons_self
    exact ⟨hbefore hc ht hkeep, hmoved hc ht hkeep (.inr (.inl hk)) rfl rfl⟩
  | memory hc ht hk =>
    have hkeep := hshown.2 _ List.mem_cons_self
    exact ⟨hbefore hc ht hkeep, hmoved hc ht hkeep (.inr (.inr hk)) rfl rfl⟩
  | register hc ht _ _ _ _ _ _ _ hd =>
    refine ⟨hbefore hc ht (hshown.2 _ List.mem_cons_self), hM.counting_resumed fun fr hfr => ?_⟩
    cases hfr
    exact resumed_deliver ((hpos.control _ hc).waits ht) hd
  | callOut hc ht => exact ⟨hbefore hc ht (hshown.2 _ List.mem_cons_self), rfl⟩
  | callIn hc ht _ _ _ hF hfr =>
    refine ⟨hbefore hc ht (hshown.2 _ List.mem_cons_self), hM.counting_resumed fun fr hfr' => ?_⟩
    cases hfr'
    exact resumed_enter hF hfr
  | ret hc ht _ _ hr =>
    exact ⟨hbefore hc ht (hshown.2 _ List.mem_cons_self),
      hM.counting_resumed fun fr hfr => resumed_return hpos hr hfr⟩
  | goto hc ht _ _ _ hj =>
    refine ⟨hbefore hc ht (hshown.2 _ List.mem_cons_self), hM.counting_resumed fun fr hfr => ?_⟩
    cases hfr
    exact resumed_jump hj
  | raise hc ht => exact ⟨hbefore hc ht (hshown.2 _ List.mem_cons_self), rfl⟩
  | unwind hc hr =>
    rw [hc]
    exact ⟨rfl, hM.counting_resumed fun fr hfr => resumed_unwind hr hfr⟩
  | env hk henv =>
    rw [hk, beginsTerminator_env]
    exact ⟨rfl, hM.counting_resumed fun fr hfr => resumed_env hpos hk henv hfr⟩

/-- Within the counting code no more than it lies ahead. -/
theorem ahead_counting {T n g b : ℕ} {I : Instruction} {rest : List Instruction}
    {locals : ℕ → Option (Val D.Data)} {x : BitVec 64} (hph : Phase M main T g b (I :: rest) locals x)
    (hg : g ≠ handlerId M) (hI : I ∈ countInsts n (counter M)) (hdrop : (added M).keeps g I.id = false) :
    ahead M g rest ≤ 2 := by
  have hle : ∀ J is, ahead M g (J :: is) ≤ ahead M g is + 1 := by
    intro J is
    rw [ahead_cons]
    split <;> omega
  have hterm : ∀ K : Counted M g b, ahead M g [K.term] = 0 := by
    intro K
    refine ahead_eq_zero fun J hJ => ?_
    exact (hM.keeps_insts K).1 J (List.mem_append_right _ hJ)
  cases hph with
  | report heq => exact absurd heq hg
  | counting K pre post _ hfront htodo =>
    cases post with
    | nil =>
      simp only [countInsts, List.nil_append, List.cons_append, List.cons.injEq] at htodo
      have hnew := hle (newCounter K.first (counter M)) [storeCounter K.first (counter M), K.term]
      have hstore := hle (storeCounter K.first (counter M)) [K.term]
      rw [htodo.2]
      have hzero := hterm K
      omega
    | cons J post =>
      -- in front of the counting code stand the registration and the program
      rw [List.cons_append, List.cons_append, List.cons.injEq] at htodo
      obtain ⟨hIJ, -⟩ := htodo
      subst hIJ
      have hmem : I ∈ frontInsts M main g b ++ K.body := by
        rw [hfront]
        exact List.mem_append_right _ List.mem_cons_self
      rcases List.mem_append.mp hmem with hmem | hmem
      · have hcall := eq_of_mem_frontInsts hmem
        subst hcall
        simp [countInsts, registerCall, oldCounter, newCounter, storeCounter] at hI
      · rw [(hM.keeps_insts K).1 I (List.mem_append_left _ hmem)] at hdrop
        cases hdrop
  | adding K _ htodo =>
    rw [List.cons.injEq] at htodo
    have hstore := hle (storeCounter K.first (counter M)) [K.term]
    have hzero := hterm K
    rw [htodo.2]
    omega
  | storing K _ htodo =>
    rw [List.cons.injEq] at htodo
    rw [htodo.2, hterm K]
    exact Nat.zero_le 2
  | leaving K _ htodo =>
    rw [List.cons.injEq] at htodo
    rw [htodo.2]
    exact Nat.zero_le 2

variable (hX : External M)
include hX

/-- **What one step adds to the account.** -/
theorem step_ledger {T : ℕ} {s s' : State D.toDataOps} {a : Act D.toDataOps} {e : Event D.toDataOps}
    (hs : Tracked M main T s) (he : Allowed M e)
    (hstep : (instrumented M main (counter M)).step s a = some (e, s')) : Ledger M s e s' := by
  have hmove := hM.move_cases hX hs he hstep
  rw [Ledger]
  rcases hM.move_silent hmove with hshown | ⟨hnot, -⟩
  · -- a step of the program
    obtain ⟨-, -, -, hks, hfn⟩ := hM.program_of_shown hmove hshown
    have hclean := hM.cleanEvent_shown hs.counter.positioned he hshown hstep
    obtain ⟨hks', hfn'⟩ := hM.step_program hs.clean hks hfn hclean hshown hstep
    obtain ⟨hbefore, hafter⟩ := hM.counting_program hs.counter.positioned hfn hshown hstep
    have hstart : startsHandler (handlerId M) e = false := by
      cases e with
      | handler g => exact beq_false_of_ne hshown
      | _ => rfl
    rw [hidden_shown hshown, reporting_program hks hfn, reporting_program hks' hfn', hbefore, hafter,
      hM.count_handlers hs.clean hclean hshown hstep, hstart]
    show 0 + 0 + _ + _ = 0 + _ + 0 + _ + 0
    omega
  rw [hidden_inserted hnot]
  cases hmove with
  | program _ _ _ _ hshown => exact absurd hshown hnot
  | @register fr rest hc hfront hb hks ht =>
    have hfn : fr.fn ≠ handlerId M := by
      rw [hfront]
      exact hM.main_ne_handler
    obtain ⟨B, hB, pre, hpre⟩ := hs.counter.positioned.control fr hc
    obtain ⟨K, hK⟩ := hM.block?_inv hfn hB
    rw [ht] at hpre
    have hle : 3 ≤ ahead M fr.fn rest := by
      refine hM.ahead_after K (hK.symm.trans hpre) ?_ ?_
      · simp [countInsts, registerCall, oldCounter, newCounter, storeCounter]
      · intro heq
        have hterm := K.isTerminator
        rw [← heq] at hterm
        cases hterm
    have hbefore : counting M s.control = 0 := by
      rw [hc, counting_exec hfn, ht, ahead_cons]
      omega
    have hfn' : ({ fr with todo := rest }.set main.nextValue (.int 32 0) : Frame D.toDataOps).fn ≠
        handlerId M := hfn
    have hafter : counting M (.exec ({ fr with todo := rest }.set main.nextValue (.int 32 0)) :
        Control D.toDataOps) = 0 := by
      rw [counting_exec hfn']
      show 3 - ahead M fr.fn rest = 0
      omega
    rw [hbefore, hafter, reporting_exec hc hfn, reporting_exec rfl hfn', beginsTerminator_plain rfl]
    show 1 + 0 + 0 + s.handlers.count (handlerId M) =
      0 + 0 + 0 + (handlerId M :: s.handlers).count (handlerId M) + 0
    rw [List.count_cons_self]
    omega
  | @count fr n I rest vs v m hc hfn hks hI ht hdrop hv hm =>
    obtain ⟨c, x, -, -, hph⟩ := hs.counter.cell
    rw [hc, ControlPhase, ht] at hph
    have hle := hM.ahead_counting hph hfn hI hdrop
    have hplain : I.isTerminator = false := by
      simp only [countInsts, List.mem_cons, List.not_mem_nil, or_false] at hI
      rcases hI with rfl | rfl | rfl <;> rfl
    have hfn' : ({ fr with todo := rest }.set I.id v : Frame D.toDataOps).fn ≠ handlerId M := hfn
    rw [reporting_exec hc hfn, reporting_exec rfl hfn', beginsTerminator_plain hplain, hc, counting_exec hfn, ht,
      ahead_cons, hdrop, counting_exec hfn']
    show 1 + 0 + (3 - (ahead M fr.fn rest + 1)) + s.handlers.count (handlerId M) =
      0 + 0 + (3 - ahead M fr.fn rest) + s.handlers.count (handlerId M) + 0
    omega
  | @report hs' hc hhs hks =>
    have hstart : startsHandler (handlerId M) (.handler (handlerId M) : Event D.toDataOps) = true :=
      beq_self_eq_true _
    have hidle : reporting M s = 0 := by
      rw [reporting, hc]
    rw [hstart, hidle, hc, hhs, List.count_cons_self, reporting_handler rfl rfl, counting_handler rfl]
    show 1 + (3 + 1) + 0 + (hs'.count (handlerId M) + 1) = 0 + 0 + 0 + hs'.count (handlerId M) + 6
    omega
  | @load ks m hc hconts hks hm =>
    rw [beginsTerminator_self, hc, counting_handler rfl, reporting_handler hc rfl, reporting_handler rfl rfl,
      counting_handler rfl]
    show 1 + (2 + 1) + 0 + s.handlers.count (handlerId M) = 3 + 1 + 0 + 0 + s.handlers.count (handlerId M) + 0
    omega
  | @print fr ks fmt hc hfn ht hconts hks =>
    have hafter : ∀ mem hds n, reporting M (⟨.env .ext, .frame { fr with todo := [handlerRet 0] } (printCall M main) ::
        s.conts, mem, hds, n⟩ : State D.toDataOps) = 2 := fun _ _ _ => if_pos hfn
    rw [beginsTerminator_self, hc, counting_handler hfn, reporting_handler hc hfn, ht, hafter]
    show 1 + 2 + 0 + s.handlers.count (handlerId M) = 2 + 1 + 0 + 0 + s.handlers.count (handlerId M) + 0
    omega
  | @printed fr ks v hc hconts hfn ht hks hv =>
    have hbefore : reporting M s = 2 := by
      rw [reporting, hc, hconts]
      exact if_pos hfn
    have hfn' : (fr.set 1 v).fn = handlerId M := hfn
    rw [hbefore, hc, reporting_handler rfl hfn', counting_handler hfn']
    show 1 + (fr.todo.length + if 2 ≤ fr.todo.length then 1 else 0) + 0 + s.handlers.count (handlerId M) =
      2 + 0 + 0 + s.handlers.count (handlerId M) + 0
    rw [ht]
    show 1 + 1 + 0 + s.handlers.count (handlerId M) = 2 + 0 + 0 + s.handlers.count (handlerId M) + 0
    omega
  | @done fr ks hc hfn ht hconts hks =>
    rw [beginsTerminator_self, hc, counting_handler hfn, reporting_handler hc hfn, ht]
    show 1 + 0 + 0 + s.handlers.count (handlerId M) = 1 + 0 + 0 + s.handlers.count (handlerId M) + 0
    omega

/-- **The account along a run.** -/
theorem run_ledger {imports : ℕ → Option D.Content} {es : List (Event D.toDataOps)}
    {s : State D.toDataOps} (hs : Reached M (instrumented M main (counter M)) imports es s) :
    (es.map (hidden M)).sum + reporting M s = 3 * terminatorsBegun (handlerId M) es + counting M s.control +
      s.handlers.count (handlerId M) + 6 * es.countP (startsHandler (handlerId M)) := by
  have hinv : Tracked M main (terminatorsBegun (handlerId M) es) s ∧
      (es.map (hidden M)).sum + reporting M s = 3 * terminatorsBegun (handlerId M) es + counting M s.control +
        s.handlers.count (handlerId M) + 6 * es.countP (startsHandler (handlerId M)) := by
    refine Run.traceInvariant (fun es s => Tracked M main (terminatorsBegun (handlerId M) es) s ∧
      (es.map (hidden M)).sum + reporting M s = 3 * terminatorsBegun (handlerId M) es + counting M s.control +
        s.handlers.count (handlerId M) + 6 * es.countP (startsHandler (handlerId M)))
      (Allowed M) ?_ hs.run hs.allowed ⟨hM.tracked_init hs.outside, rfl⟩
    intro es s a e t ⟨htracked, hbefore⟩ he hstep
    have hledger := hM.step_ledger hX htracked he hstep
    rw [Ledger] at hledger
    rw [terminatorsBegun_snoc]
    refine ⟨hM.step_tracked hX htracked he hstep, ?_⟩
    rw [List.map_append, List.sum_append, List.map_singleton, List.sum_singleton, List.countP_append,
      List.countP_singleton]
    have hstart : (if startsHandler (handlerId M) e = true then 1 else 0) =
        (startsHandler (handlerId M) e).toNat := by
      cases startsHandler (handlerId M) e <;> rfl
    rw [hstart]
    omega
  exact hinv.2

end Ready

/-- **How much longer the run of the instrumented program is**: at normal termination, by three steps for every
block counted and six for every entry of `main`; the other steps are a run of the original program. -/
theorem length_eq_of_done {M M' : Module} {main H : Function} {D : DataSem} {imports : ℕ → Option D.Content}
    {es : List (Event D.toDataOps)} {s : State D.toDataOps} (hM : Ready M main) (hX : External M)
    (hM' : runOnModule M = .ok M') (hH : M'.getFunction atexitCallStr = some H)
    (hs : Reached M M' imports es s) (hend : s.control = .done true) :
    Run M.step (M.initState imports) (es.filterMap (original M)) (view M s) ∧
      es.length = (es.filterMap (original M)).length + 3 * terminatorsBegun H.id es +
        6 * es.countP (entersMain M' main) := by
  obtain ⟨rfl, hid⟩ := hM.result_eq hM' hH
  rw [hid]
  refine ⟨?_, ?_⟩
  · have hrun := ((hM.refines_instrumented hX).run hs.run hs.allowed ⟨0, hM.tracked_init hs.outside⟩).2
    rwa [hM.view_init] at hrun
  · have hledger := hM.run_ledger hX hs
    have hnil : s.handlers = [] := by
      have hrun := hs.run
      cases hrun with
      | nil => rfl
      | snoc _ hstep => exact handlers_of_done hstep hend
    have hidle : reporting M s = 0 := by
      rw [reporting, hend]
    rw [hidle, hend, hnil, ← (hM.reported_done hX hs hend).1] at hledger
    have hzero : counting M (.done true : Control D.toDataOps) = 0 := rfl
    rw [hzero, List.count_nil] at hledger
    rw [length_eq_add (M := M) es]
    omega

theorem length_eq_of_done_alloca : ∃ M' H, runOnModule allocaModule = .ok M' ∧
    M'.getFunction atexitCallStr = some H ∧
    ∃ es s, Reached (D := wordSem) allocaModule M' (fun _ => none) es s ∧ s.control = .done true ∧
      (es.filterMap (original allocaModule)).length = 4 ∧
      es.length = (es.filterMap (original allocaModule)).length + 3 * terminatorsBegun H.id es +
        6 * es.countP (entersMain M' allocaMain) := by
  have hX : External allocaModule := External.of_absent rfl rfl
  have hreport : reportOf allocaModule allocaMain returnActs = some (true, true, 1, 1, [1]) := by rfl
  obtain ⟨es, s, hr, hreached, hdone, -⟩ := exists_reached hreport
  obtain ⟨-, hlength⟩ := length_eq_of_done ready_allocaModule hX ready_allocaModule.runOnModule
    ready_allocaModule.getFunction_instrumented hreached hdone
  have hcounts : (instrumentedRun allocaModule allocaMain returnActs).map (fun r =>
      (r.1.filterMap (original allocaModule)).length) = some 4 := by rfl
  rw [hr, Option.map_some, Option.some.injEq] at hcounts
  exact ⟨_, _, ready_allocaModule.runOnModule, ready_allocaModule.getFunction_instrumented, es, s, hreached,
    hdone, hcounts, hlength⟩

end SnippetsLlvm.CountBB
