import SnippetsLlvm.CountBB.Report
import SnippetsLlvm.Ir.Stack
import SnippetsLlvm.Library.CostedRuns
import Mathlib.Data.List.TakeWhile

/-!
# Blocks that are entered and never counted

A program has one thread here, and neither `setjmp` and `longjmp` nor asynchronous signals.  In it a frame that
has entered its block and not begun its terminator is left for good in two ways only: `exit()` drops every frame
that waits, and an exception drops the frame whose call it passes.  So what the counter misses is known exactly.

* `abandoned` — the open frames a step drops;
* `Distinct` — the first instruction of a block occurs in it once, and the last one is its terminator;
* `step_balance` — what one step does to the blocks entered, the terminators begun and the open frames;
* `blocksEntered_eq` — **along every run the blocks entered are the terminators begun, the frames still open
  and the frames abandoned**;
* `printedNumber_eq` — **each report shows the blocks entered before it, less the frames abandoned**;
* `reportRight_iff` — **the report is right exactly when `main` is entered once and, below `2 ^ 63`, the number of
  blocks entered fits in 31 bits, no frame is abandoned before the handler starts and no block entered after it**.
-/

namespace SnippetsLlvm.CountBB

open SnippetsLlvm.Ir SnippetsLlvm.Library

section Balance

variable (M : Module) (h : ℕ) {D : DataOps}

/-- The open frames outside the function `h` that a step drops: every one that waits, at an `exit()`; the one
whose call an exception passes. -/
def abandoned (s : State D) (a : Act D) : ℕ :=
  match s.control, s.conts, a with
  | .env _, ks, .exit => ks.countP (openedCont M h)
  | .raise _, k :: _, .tick => (openedCont M h k).toNat
  | _, _, _ => 0

/-- Outside the function `h` every block ends in its terminator, and no other instruction passes for the
first one. -/
def Distinct : Prop :=
  ∀ g b B, g ≠ h → M.block? g b = some B → (∃ body t, B.insts = body ++ [t] ∧ t.isTerminator = true) ∧
    B.insts.Pairwise fun I J => ¬ (J.id = I.id ∧ J.opcode = I.opcode)

variable {M h}

theorem toNat_of_weight {b : Bool} {g : ℕ} (hb : b = decide (g ≠ h)) : b.toNat = weight h g := by
  rw [hb, weight]
  by_cases hg : g = h
  · simp [hg]
  · simp [hg]

variable (hM : Distinct M h)
include hM

/-- **A frame that executes its next instruction is open or enters its block**, not both. -/
theorem weight_eq {fr : Frame D} {I : Instruction} {rest is : List Instruction} (vs : List (Val D.Data))
    (hfr : fr.At M) (ht : fr.todo = I :: rest) (his : is.head? = some I) :
    weight h fr.fn =
      (openedFrame M h fr).toNat + (entersBlock M h (.exec fr.fn fr.block is vs : Event D)).toNat := by
  refine Nat.le_antisymm (weight_le vs hfr ht his) ?_
  by_cases hg : fr.fn = h
  · simp [openedFrame, entersBlock, hg]
  · rw [weight, if_neg hg]
    obtain ⟨B, hB, pre, hpre⟩ := hfr
    obtain ⟨-, hpair⟩ := hM _ _ B hg hB
    cases pre with
    | nil =>
      rw [openedFrame_front hB hpre.symm]
      have hle := Bool.toNat_le (entersBlock M h (.exec fr.fn fr.block is vs : Event D))
      show 0 + _ ≤ 1
      omega
    | cons J pre =>
      have hother : entersBlock M h (.exec fr.fn fr.block is vs : Event D) = false := by
        rw [hpre, ht, List.cons_append, List.pairwise_cons] at hpair
        have hne := hpair.1 I (List.mem_append_right _ List.mem_cons_self)
        have hfront : isFront M fr.fn fr.block is = (I.id == J.id && I.opcode == J.opcode) := by
          simp [isFront, hB, hpre, his]
        rw [entersBlock, hfront]
        simpa using fun _ hid hop => hne ⟨hid, hop⟩
      rw [hother]
      exact Bool.toNat_le _

/-- **An instruction is a terminator or leaves its frame open.** -/
theorem spent_eq {fr : Frame D} {I : Instruction} {rest : List Instruction} (vs : List (Val D.Data))
    (hfr : fr.At M) (ht : fr.todo = I :: rest) (hlast : TerminatorsLast M) :
    (beginsTerminator h (.exec fr.fn fr.block [I] vs : Event D)).toNat +
      (openedFrame M h { fr with todo := rest }).toNat = weight h fr.fn := by
  obtain ⟨B, hB, pre, hpre⟩ := hfr
  rw [ht] at hpre
  by_cases hI : I.isTerminator = true
  · rw [openedFrame_nil (hlast _ _ B hB pre I rest hpre hI)]
    refine toNat_of_weight ?_
    simp [beginsTerminator, hI]
  · rw [beginsTerminator_plain (by simpa using hI)]
    show 0 + _ = _
    rw [Nat.zero_add]
    refine toNat_of_weight ?_
    by_cases hg : fr.fn = h
    · simp [openedFrame, hg]
    · have hrest : rest ≠ [] := by
        rintro rfl
        obtain ⟨⟨body, t, hbody, hterm⟩, -⟩ := hM _ _ B hg hB
        rw [hpre] at hbody
        obtain ⟨-, heq⟩ := List.append_inj' hbody rfl
        rw [List.cons.injEq] at heq
        rw [heq.1] at hI
        exact hI hterm
      have hlen : B.insts.length ≠ rest.length := by
        rw [hpre, List.length_append, List.length_cons]
        omega
      simp [openedFrame, hB, hg, hrest, hlen]

/-- **A group of phi nodes leaves its frame open.** -/
theorem openedFrame_phis {fr : Frame D} {I : Instruction} {rest : List Instruction} {vs : List (Val D.Data)}
    (hfr : fr.At M) (ht : fr.todo = I :: rest) (hphi : I.isPhi = true) :
    (openedFrame M h { fr.setAll (fr.todo.takeWhile Instruction.isPhi) vs with
      todo := fr.todo.dropWhile Instruction.isPhi }).toNat = weight h fr.fn := by
  refine toNat_of_weight ?_
  by_cases hg : fr.fn = h
  · simp [openedFrame, hg]
  · obtain ⟨B, hB, pre, hpre⟩ := hfr
    obtain ⟨⟨body, t, hbody, hterm⟩, -⟩ := hM _ _ B hg hB
    have hlt : (fr.todo.dropWhile Instruction.isPhi).length < fr.todo.length := by
      rw [ht, List.dropWhile_cons_of_pos hphi, List.length_cons]
      exact Nat.lt_succ_of_le (List.dropWhile_sublist _).length_le
    have hlen : B.insts.length ≠ (fr.todo.dropWhile Instruction.isPhi).length := by
      rw [hpre, List.length_append]
      omega
    -- the terminator is no phi node and stays
    have hne : fr.todo.dropWhile Instruction.isPhi ≠ [] := by
      intro hnil
      have hlast : t ∈ fr.todo := by
        have hfin : fr.todo.getLast? = some t := by
          have hall : B.insts.getLast? = some t := by
            rw [hbody]
            exact List.getLast?_concat ..
          rw [hpre, List.getLast?_append, ht] at hall
          rw [ht]
          simpa [List.getLast?_cons] using hall
        exact List.mem_of_getLast? hfin
      have htphi := List.dropWhile_eq_nil_iff.mp hnil t hlast
      rw [isTerminator_of_isPhi htphi] at hterm
      cases hterm
    simp [openedFrame, hB, hg, hne, hlen]

omit hM in
theorem abandoned_exec {s : State D} {a : Act D} {fr : Frame D} (hc : s.control = .exec fr) :
    abandoned M h s a = 0 := by
  simp [abandoned, hc]

omit hM in
/-- What a frame waiting for a result becomes when it gets it is as open as it was: it goes on in its block, or
it had begun its terminator and stands at the front of another block. -/
theorem openedFrame_deliver_eq {fr fr' : Frame D} {site : Instruction} {v : Val D.Data}
    (hw : fr.WaitsAt M site) (hlast : TerminatorsLast M) (hd : M.deliver fr site v = some fr') :
    openedFrame M h fr' = openedFrame M h fr := by
  rcases deliver_inv hd with ⟨-, -, -, rfl⟩ | ⟨hterm, B, hB, ht, -⟩
  · rfl
  · obtain ⟨B', hB', pre, hpre⟩ := hw
    rw [openedFrame_front hB ht, openedFrame_nil (hlast _ _ B' hB' pre site fr.todo hpre hterm)]

omit hM in
/-- A frame at an `invoke` has begun its terminator. -/
theorem openedFrame_invoke {fr : Frame D} {site : Instruction} {ft : FunctionType} (hw : fr.WaitsAt M site)
    (hlast : TerminatorsLast M) (hop : site.opcode = .invoke ft) : openedFrame M h fr = false := by
  obtain ⟨B, hB, pre, hpre⟩ := hw
  refine openedFrame_nil (hlast _ _ B hB pre site fr.todo hpre ?_)
  rw [Instruction.isTerminator, hop]
  rfl

omit hM in
/-- A return opens no frame and drops none. -/
theorem opened_return_eq {s : State D} {v : Val D.Data} {r : Control D × List (Cont D)} (hs : Positioned M s)
    (hg : Grounded s) (hlast : TerminatorsLast M) (hr : M.returnTo v s.conts = some r) :
    (openedControl M h r.1).toNat + r.2.countP (openedCont M h) = s.conts.countP (openedCont M h) := by
  have hc := return_cases hr
  generalize hks : s.conts = ks at hc
  cases hc with
  | @frame fr site rest fr' hd =>
    have hw := hs.conts fr site (by rw [hks]; exact List.mem_cons_self)
    rw [countP_opened_cons, openedControl_exec, openedFrame_deliver_eq hw hlast hd]
    rfl
  | @main rest =>
    have hnil : rest = [] := hg.conts .crtMain rest (by rw [hks]) (by decide)
    rw [hnil]
    rfl
  | env =>
    rw [countP_opened_cons]
    rfl

omit hM in
/-- An exception drops the frame whose call it passes. -/
theorem opened_unwind_eq {s : State D} {exn : Val D.Data} {r : Control D × List (Cont D)}
    (hc : s.control = .raise exn) (hs : Positioned M s) (hg : Grounded s) (hlast : TerminatorsLast M)
    (hr : M.unwind exn s.conts = some r) :
    (openedControl M h r.1).toNat + r.2.countP (openedCont M h) + abandoned M h s .tick =
      s.conts.countP (openedCont M h) := by
  have hcases := unwind_cases hr
  have hlost : ∀ k rest, s.conts = k :: rest → abandoned M h s .tick = (openedCont M h k).toNat := by
    intro k rest hks
    simp [abandoned, hc, hks]
  generalize hks : s.conts = ks at hcases
  cases hcases with
  | @caught fr site rest ft c b fr' hop hp hb hj =>
    have hw := hs.conts fr site (by rw [hks]; exact List.mem_cons_self)
    have hclosed : openedCont M h (.frame fr site) = false := openedFrame_invoke hw hlast hop
    rw [hlost _ _ hks, countP_opened_cons, openedControl_exec, openedFrame_jump hj, hclosed]
    show 0 + rest.countP (openedCont M h) + 0 = 0 + rest.countP (openedCont M h)
    omega
  | @passed fr site rest =>
    rw [hlost _ _ hks, countP_opened_cons]
    show 0 + rest.countP (openedCont M h) + _ = _
    omega
  | ext =>
    rw [hlost _ _ hks, countP_opened_cons]
    rfl
  | @terminate k rest hk =>
    have hnil : rest = [] := hg.conts k rest (by rw [hks]) hk
    rw [hlost _ _ hks, hnil]
    rfl

omit hM in
/-- The environment opens no frame, and drops the frames that wait at an `exit()`. -/
theorem opened_envStep_eq {s s' : State D} {k : EnvKind} {a : Act D} (hs : Positioned M s)
    (hlast : TerminatorsLast M) (hk : s.control = .env k) (henv : M.envStep s k a = some s') :
    opened M h s' + abandoned M h s a = opened M h s := by
  have hidle : openedControl M h s.control = false := by
    rw [hk]
    rfl
  have hkept : a ≠ .exit → abandoned M h s a = 0 := by
    intro ha
    cases a with
    | exit => exact absurd rfl ha
    | _ => simp [abandoned, hk]
  have hstart : ∀ {g F args fr k' mem hds n}, M.function? g = some F → F.enter args = some fr →
      opened M h ⟨.exec fr, .env k' :: s.conts, mem, hds, n⟩ = opened M h s := by
    intro g F args fr k' mem hds n hF hfr
    rw [opened_mk, opened, hidle, countP_opened_cons, openedControl_exec, openedFrame_enter hF hfr]
    show 0 + (0 + _) = 0 + _
    omega
  have hsame : ∀ {c : Control D} {mem hds n}, openedControl M h c = false →
      opened M h ⟨c, s.conts, mem, hds, n⟩ = opened M h s := by
    intro c mem hds n hclosed
    rw [opened_mk, opened, hidle, hclosed]
  cases env_cases henv with
  | @ret fr site rest v fr' hconts hd =>
    have hw := hs.conts fr site (by rw [hconts]; exact List.mem_cons_self)
    rw [hkept (by rintro ⟨⟩), opened_mk, opened, hidle, hconts, countP_opened_cons, openedControl_exec,
      openedFrame_deliver_eq hw hlast hd]
    show _ = 0 + ((openedFrame M h fr).toNat + _)
    omega
  | callback hF hfr => rw [hkept (by rintro ⟨⟩), hstart hF hfr]; rfl
  | runMain _ hF hfr => rw [hkept (by rintro ⟨⟩), hstart hF hfr]; rfl
  | runHandler _ hF hfr => rw [hkept (by rintro ⟨⟩), hstart hF hfr]; rfl
  | exit =>
    have hdrop : abandoned M h s .exit = s.conts.countP (openedCont M h) := by simp [abandoned, hk]
    have hbefore : opened M h s = 0 + s.conts.countP (openedCont M h) := by
      rw [opened, hidle]
      rfl
    rw [hdrop, hbefore]
    rfl
  | throw => rw [hkept (by rintro ⟨⟩)]; exact hsame rfl
  | finish => rw [hkept (by rintro ⟨⟩)]; exact hsame rfl
  | abort => rw [hkept (by rintro ⟨⟩)]; exact hsame rfl
  | write => rw [hkept (by rintro ⟨⟩)]; rfl
  | malloc => rw [hkept (by rintro ⟨⟩)]; rfl
  | skipHandler => rw [hkept (by rintro ⟨⟩)]; rfl

/-- **What one step does**: a frame that begins its terminator is no longer open, one that enters a block is,
and no other frame is lost but those abandoned. -/
theorem step_balance {s s' : State D} {a : Act D} {e : Event D} (hs : Positioned M s) (hg : Grounded s)
    (hlast : TerminatorsLast M) (hstep : M.step s a = some (e, s')) :
    (beginsTerminator h e).toNat + opened M h s' + abandoned M h s a =
      opened M h s + (entersBlock M h e).toNat := by
  -- the running frame pays for its step
  have hpaid : ∀ {fr I rest} is vs, s.control = .exec fr → fr.todo = I :: rest → is.head? = some I →
      weight h fr.fn + s.conts.countP (openedCont M h) =
        opened M h s + (entersBlock M h (.exec fr.fn fr.block is vs : Event D)).toNat := by
    intro fr I rest is vs hc ht his
    have heq := weight_eq (h := h) hM vs (hs.control fr hc) ht his
    rw [opened, hc, openedControl_exec]
    omega
  -- a step within the frame
  have hmoved : ∀ {fr fr' I rest vs mem hds n}, s.control = .exec fr → fr.todo = I :: rest →
      openedFrame M h fr' = openedFrame M h { fr with todo := rest } →
      (beginsTerminator h (.exec fr.fn fr.block [I] vs : Event D)).toNat +
          opened M h ⟨.exec fr', s.conts, mem, hds, n⟩ + abandoned M h s a =
        opened M h s + (entersBlock M h (.exec fr.fn fr.block [I] vs : Event D)).toNat := by
    intro fr fr' I rest vs mem hds n hc ht heq
    have hspent := spent_eq (h := h) hM vs (hs.control fr hc) ht hlast
    have hpay := hpaid [I] vs hc ht rfl
    rw [abandoned_exec hc, opened_mk, openedControl_exec, heq]
    omega
  -- a terminator leaves the frame closed, or leaves it for good
  have hleft : ∀ {fr I rest vs} {c : Control D} {ks : List (Cont D)} {mem hds n}, s.control = .exec fr →
      fr.todo = I :: rest → I.isTerminator = true →
      (openedControl M h c).toNat + ks.countP (openedCont M h) = s.conts.countP (openedCont M h) →
      (beginsTerminator h (.exec fr.fn fr.block [I] vs : Event D)).toNat + opened M h ⟨c, ks, mem, hds, n⟩ +
          abandoned M h s a =
        opened M h s + (entersBlock M h (.exec fr.fn fr.block [I] vs : Event D)).toNat := by
    intro fr I rest vs c ks mem hds n hc ht hI heq
    have hbegins : (beginsTerminator h (.exec fr.fn fr.block [I] vs : Event D)).toNat = weight h fr.fn := by
      refine toNat_of_weight ?_
      simp [beginsTerminator, hI]
    have hpay := hpaid [I] vs hc ht rfl
    rw [abandoned_exec hc, opened_mk]
    omega
  -- a call, from the frame that waits for it
  have hcalled : ∀ {fr I rest vs} {c : Control D} {mem hds n}, s.control = .exec fr →
      fr.todo = I :: rest → openedControl M h c = false →
      (beginsTerminator h (.exec fr.fn fr.block [I] vs : Event D)).toNat +
          opened M h ⟨c, .frame { fr with todo := rest } I :: s.conts, mem, hds, n⟩ + abandoned M h s a =
        opened M h s + (entersBlock M h (.exec fr.fn fr.block [I] vs : Event D)).toNat := by
    intro fr I rest vs c mem hds n hc ht hclosed
    have hspent := spent_eq (h := h) hM vs (hs.control fr hc) ht hlast
    have hpay := hpaid [I] vs hc ht rfl
    rw [abandoned_exec hc, opened_mk, countP_opened_cons, hclosed]
    show _ + (0 + ((openedFrame M h { fr with todo := rest }).toNat + _)) + 0 = _
    omega
  cases step_cases hstep with
  | @phis fr I rest vs hc ht hphi =>
    have his : (fr.todo.takeWhile Instruction.isPhi).head? = some I := by
      rw [ht, List.takeWhile_cons_of_pos hphi, List.head?_cons]
    have hpay := hpaid _ vs hc ht his
    have hopen : (openedFrame M h { fr.setAll (fr.todo.takeWhile Instruction.isPhi) vs with
        todo := fr.todo.dropWhile Instruction.isPhi }).toNat = weight h fr.fn :=
      openedFrame_phis hM (hs.control fr hc) ht hphi
    rw [beginsTerminator_phis, abandoned_exec hc, opened_mk, openedControl_exec, hopen]
    show 0 + _ + 0 = _
    omega
  | value hc ht => exact hmoved hc ht rfl
  | alloca hc ht => exact hmoved hc ht rfl
  | memory hc ht => exact hmoved hc ht rfl
  | @register fr I rest vs _ _ _ fr' hc ht _ _ _ _ _ _ _ hd =>
    exact hmoved hc ht (openedFrame_deliver_eq ((hs.control fr hc).waits ht) hlast hd)
  | callOut hc ht => exact hcalled hc ht rfl
  | callIn hc ht _ _ _ hF hfr => exact hcalled hc ht (openedFrame_enter hF hfr)
  | ret hc ht hk _ hr => exact hleft hc ht (isTerminator_of_kind (.inl hk)) (opened_return_eq hs hg hlast hr)
  | goto hc ht hk _ _ hj =>
    refine hleft hc ht (isTerminator_of_kind (.inr hk)) ?_
    rw [openedControl_exec, openedFrame_jump hj]
    exact Nat.zero_add _
  | raise hc ht hk =>
    refine hleft hc ht (isTerminator_of_kind (.inr hk)) ?_
    exact Nat.zero_add _
  | unwind hc hr =>
    have heq := opened_unwind_eq (h := h) hc hs hg hlast hr
    rw [opened_mk, opened, hc]
    show 0 + _ + _ = 0 + _ + 0
    omega
  | env hk henv =>
    have heq := opened_envStep_eq (h := h) hs hlast hk henv
    rw [beginsTerminator_env, entersBlock_env]
    show 0 + _ + _ = _ + 0
    omega

/-- **The blocks entered along a run**: the terminators begun, the frames still open, and the frames
abandoned. -/
theorem run_balance (hlast : TerminatorsLast M) {imports : ℕ → Option D.Content} {es : List (Event D)}
    {s : State D} {n : ℕ} (hrun : CostedRun M.step (abandoned M h) (M.initState imports) es s n) :
    blocksEntered M h es = terminatorsBegun h es + opened M h s + n := by
  have hinv : (Positioned M s ∧ Grounded s) ∧ blocksEntered M h es = terminatorsBegun h es + opened M h s + n := by
    refine hrun.costInvariant (fun es s n => (Positioned M s ∧ Grounded s) ∧
      blocksEntered M h es = terminatorsBegun h es + opened M h s + n) (fun _ => True) ?_ (fun _ _ => trivial)
      ⟨⟨initState_positioned _ _, grounded_init _⟩, rfl⟩
    intro es s n a e s' ⟨⟨hpos, hground⟩, heq⟩ _ hstep
    refine ⟨⟨step_positioned hpos hstep, step_grounded hground hstep⟩, ?_⟩
    have hone := step_balance (h := h) hM hpos hground hlast hstep
    rw [terminatorsBegun_snoc, blocksEntered_snoc]
    omega
  exact hinv.2

omit hM in
/-- When the program has terminated normally no frame is open. -/
theorem opened_of_done {imports : ℕ → Option D.Content} {es : List (Event D)} {s : State D}
    (hrun : Run M.step (M.initState imports) es s) (hend : s.control = .done true) : opened M h s = 0 := by
  have hnil : s.conts = [] := by
    cases hrun with
    | nil => cases hend
    | snoc hrun hstep => exact conts_of_done (run_grounded hrun) hstep hend
  rw [opened, hnil, hend]
  rfl

/-- **At normal termination** no frame was abandoned exactly when every block entered was left by its terminator. -/
theorem costed_zero_iff (hlast : TerminatorsLast M) {imports : ℕ → Option D.Content} {es : List (Event D)}
    {s : State D} (hrun : Run M.step (M.initState imports) es s) (hend : s.control = .done true) :
    CostedRun M.step (abandoned M h) (M.initState imports) es s 0 ↔ blocksEntered M h es = terminatorsBegun h es := by
  obtain ⟨n, hcost⟩ := hrun.costed (abandoned M h)
  have hbalance := run_balance hM hlast hcost
  rw [opened_of_done hrun hend, Nat.add_zero] at hbalance
  constructor
  · intro hfree
    obtain ⟨-, rfl⟩ := hcost.cost_unique step_action hfree
    exact hbalance
  · intro heq
    obtain rfl : n = 0 := by omega
    exact hcost

end Balance

/-! ### The instrumented program -/

/-- The instructions of a block of a well-formed function have different identities. -/
theorem nodup_of_mem_blocks {M : Module} {F : Function} (hF : F.WellFormed M) {B : BasicBlock}
    (hB : B ∈ F.blocks) : (B.insts.map Instruction.id).Nodup := by
  have hsub : B.insts.Sublist F.insts := by
    rw [Function.insts, List.flatMap_def]
    exact List.sublist_flatten_of_mem (List.mem_map_of_mem hB)
  exact hF.valueIds.sublist (hsub.map _)

namespace Ready

variable {M : Module} {main : Function} (hM : Ready M main)
include hM

/-- The instructions of the program come before those of the pass. -/
theorem lt_of_counted {g b : ℕ} (K : Counted M g b) {I : Instruction} (hI : I ∈ K.body ++ [K.term]) :
    I.id < K.fn.nextValue := by
  have hmem : K.fn ∈ M.functions := (Module.mem_of_function? K.fn_eq).1
  refine (hM.wf.functions _ hmem).valueBound I ?_
  refine List.mem_flatMap.mpr ⟨K.block, List.mem_of_find?_eq_some K.block_eq, ?_⟩
  rwa [K.insts_eq]

/-- The registration stands in `main`. -/
theorem fn_of_front {g b : ℕ} (K : Counted M g b) {I : Instruction} (hI : I ∈ frontInsts M main g b) :
    K.fn = main := by
  rw [frontInsts] at hI
  split at hI
  · rename_i hfront
    have hfn := hM.wf.function?_of_mem hM.main_mem
    rw [← hfront.1, K.fn_eq, Option.some.injEq] at hfn
    exact hfn
  · cases hI

/-- **No instruction of a counted block passes for another one.** -/
theorem pairwise_counted {g b : ℕ} (K : Counted M g b) :
    (K.insts main).Pairwise fun I J => ¬ (J.id = I.id ∧ J.opcode = I.opcode) := by
  have hnodup : (K.body ++ [K.term]).Pairwise fun I J => ¬ (J.id = I.id ∧ J.opcode = I.opcode) := by
    have hblock := nodup_of_mem_blocks (hM.wf.functions _ (Module.mem_of_function? K.fn_eq).1)
      (List.mem_of_find?_eq_some K.block_eq)
    rw [K.insts_eq, List.Nodup, List.pairwise_map] at hblock
    exact hblock.imp fun hne hsame => hne hsame.1.symm
  obtain ⟨hbody, -, hlast⟩ := List.pairwise_append.mp hnodup
  have hcounting : ∀ J ∈ countInsts K.first (counter M), K.fn.nextValue ≤ J.id ∧ J.opcode.kind ≠ .call := by
    intro J hJ
    have hfirst := K.le_first
    simp only [countInsts, List.mem_cons, List.not_mem_nil, or_false] at hJ
    rcases hJ with rfl | rfl | rfl
    · exact ⟨hfirst, fun hcall => by cases hcall⟩
    · exact ⟨Nat.le_succ_of_le hfirst, fun hcall => by cases hcall⟩
    · exact ⟨Nat.le_add_right_of_le hfirst, fun hcall => by cases hcall⟩
  have hown : (countInsts K.first (counter M)).Pairwise fun I J => ¬ (J.id = I.id ∧ J.opcode = I.opcode) := by
    simp [countInsts, oldCounter, newCounter, storeCounter]
  rw [Counted.insts, List.pairwise_append, List.pairwise_append, List.pairwise_append]
  refine ⟨⟨⟨?_, hbody, ?_⟩, hown, ?_⟩, List.pairwise_singleton _ _, ?_⟩
  · -- the registration stands alone
    rw [frontInsts]
    split
    · exact List.pairwise_singleton _ _
    · exact List.Pairwise.nil
  · intro I hI J hJ hsame
    have hlt := hM.lt_of_counted K (List.mem_append_left _ hJ)
    rw [hsame.1, eq_of_mem_frontInsts hI, ← hM.fn_of_front K hI] at hlt
    exact Nat.lt_irrefl _ hlt
  · intro I hI J hJ hsame
    obtain ⟨hle, hcall⟩ := hcounting J hJ
    rcases List.mem_append.mp hI with hI | hI
    · rw [hsame.2, eq_of_mem_frontInsts hI] at hcall
      exact hcall rfl
    · have hlt := hM.lt_of_counted K (List.mem_append_left _ hI)
      rw [← hsame.1] at hlt
      omega
  · intro I hI J hJ hsame
    rw [List.mem_singleton] at hJ
    subst hJ
    have hlt := hM.lt_of_counted K (List.mem_append_right _ (List.mem_singleton_self K.term))
    rw [List.append_assoc, List.mem_append, List.mem_append] at hI
    rcases hI with hI | hI | hI
    · rw [hsame.1, eq_of_mem_frontInsts hI, ← hM.fn_of_front K hI] at hlt
      exact Nat.lt_irrefl _ hlt
    · exact hlast I hI _ (List.mem_singleton_self _) hsame
    · have hle := (hcounting I hI).1
      omega

/-- In an instrumented program no instruction passes for the front of a block. -/
theorem distinct_instrumented : Distinct (instrumented M main (counter M)) (handlerId M) := by
  intro g b B hg hB
  obtain ⟨K, hK⟩ := hM.block?_inv hg hB
  rw [hK]
  refine ⟨⟨_, K.term, rfl, K.isTerminator⟩, hM.pairwise_counted K⟩

end Ready

/-! ### What the counter and the reports miss -/

/-- The count at a start of the handler is that of the terminators begun before it. -/
theorem getElem?_startCounts {D : DataOps} {h t : ℕ} (pre : List (Event D)) {e : Event D}
    (post : List (Event D)) (he : startsHandler h e = true) :
    (startCounts h t (pre ++ e :: post))[pre.countP (startsHandler h)]? = some (t + terminatorsBegun h pre) := by
  induction pre generalizing t with
  | nil =>
    rw [List.nil_append, startCounts, if_pos he]
    rfl
  | cons e' pre ih =>
    rw [List.cons_append, startCounts, terminatorsBegun_cons, ← Nat.add_assoc, List.countP_cons]
    by_cases hstart : startsHandler h e' = true
    · rw [if_pos hstart, if_pos hstart, List.singleton_append, List.getElem?_cons_succ]
      exact ih
    · rw [if_neg hstart, if_neg hstart, List.nil_append, Nat.add_zero]
      exact ih

/-- Every count is that of the terminators begun before a start of the handler. -/
theorem exists_start_of_mem {D : DataOps} {h t n : ℕ} {es : List (Event D)} (hn : n ∈ startCounts h t es) :
    ∃ pre e post, es = pre ++ e :: post ∧ startsHandler h e = true ∧ n = t + terminatorsBegun h pre := by
  induction es generalizing t with
  | nil => cases hn
  | cons e es ih =>
    rw [startCounts, List.mem_append] at hn
    rcases hn with hn | hn
    · split at hn
      · rename_i he
        exact ⟨[], e, es, rfl, he, List.mem_singleton.mp hn⟩
      · cases hn
    · obtain ⟨pre, e', post, rfl, he, rfl⟩ := ih hn
      exact ⟨e :: pre, e', post, rfl, he, by rw [terminatorsBegun_cons, Nat.add_assoc]⟩

/-- When the code that runs at exit comes next, no frame is open. -/
theorem opened_of_starts {M : Module} {h : ℕ} {D : DataOps} {s s' : State D} {a : Act D} {e : Event D}
    (hs : Grounded s) (hstep : M.step s a = some (e, s')) (he : startsHandler h e = true) :
    opened M h s = 0 := by
  have hclosed : ∀ k, s.control = .env k → k ≠ .ext → opened M h s = 0 := by
    intro k hk hext
    rw [opened, hk, hs.control k hk hext]
    rfl
  cases step_cases hstep with
  | env hk henv =>
    cases env_cases henv with
    | runHandler | skipHandler => exact hclosed _ hk (by decide)
    | _ => cases he
  | _ => cases he

/-- **The blocks entered along a run that starts the handler**: the terminators begun before, the frames abandoned
before, and the blocks entered after. -/
theorem blocksEntered_split {M : Module} {h : ℕ} {D : DataOps} {imports : ℕ → Option D.Content}
    {pre post : List (Event D)} {e : Event D} {s : State D} (hM : Distinct M h) (hlast : TerminatorsLast M)
    (hrun : Run M.step (M.initState imports) (pre ++ e :: post) s) (he : startsHandler h e = true) :
    ∃ t n, CostedRun M.step (abandoned M h) (M.initState imports) pre t n ∧
      blocksEntered M h pre = terminatorsBegun h pre + n ∧
      blocksEntered M h (pre ++ e :: post) = terminatorsBegun h pre + n + blocksEntered M h post := by
  rw [List.append_cons] at hrun
  obtain ⟨u, hbefore, -⟩ := hrun.append_inv
  obtain ⟨t, a, hpre, hstep⟩ := hbefore.snoc_inv
  obtain ⟨n, hcost⟩ := hpre.costed (abandoned M h)
  have hbalance := run_balance hM hlast hcost
  rw [opened_of_starts (run_grounded hpre) hstep he, Nat.add_zero] at hbalance
  have henters : entersBlock M h e = false := by
    cases e with
    | exec => cases he
    | _ => rfl
  refine ⟨t, n, hcost, hbalance, ?_⟩
  rw [← hbalance, blocksEntered, List.countP_append, List.countP_cons_of_neg (by rw [henters]; decide)]
  rfl

/-- **The blocks entered in an instrumented program**: the terminators begun, which the counter counts, the
frames still open, and the frames abandoned; at normal termination no frame is open. -/
theorem blocksEntered_eq {M M' : Module} {main H : Function} {D : DataOps} {imports : ℕ → Option D.Content}
    {es : List (Event D)} {s : State D} {n : ℕ} (hM : Ready M main) (hM' : runOnModule M = .ok M')
    (hH : M'.getFunction atexitCallStr = some H)
    (hrun : CostedRun M'.step (abandoned M' H.id) (M'.initState imports) es s n) :
    blocksEntered M' H.id es = terminatorsBegun H.id es + opened M' H.id s + n ∧
      (s.control = .done true → opened M' H.id s = 0) := by
  obtain ⟨rfl, hid⟩ := hM.result_eq hM' hH
  rw [hid] at hrun ⊢
  exact ⟨run_balance hM.distinct_instrumented hM.terminatorsLast_instrumented hrun, opened_of_done hrun.run⟩

/-- The `exit()` in `callModule` abandons the one block entered. -/
theorem blocksEntered_eq_callModule : ∃ M' H, runOnModule callModule = .ok M' ∧
    M'.getFunction atexitCallStr = some H ∧
    ∃ (es : List (Event wordSem.toDataOps)) (s : State wordSem.toDataOps),
      CostedRun M'.step (abandoned M' H.id) (M'.initState fun _ => none) es s 1 ∧ s.control = .done true ∧
        blocksEntered M' H.id es = 1 ∧ terminatorsBegun H.id es = 0 := by
  have hid : (handlerFn callModule callMain).id = handlerId callModule := ready_callModule.handlerDecl_id
  have hreport : reportOf callModule callMain exitActs = some (true, true, 1, 1, [0]) := by rfl
  obtain ⟨es, s, hr, hreached, hdone, -, hentered, -⟩ := exists_reached hreport
  have hcounts : (instrumentedRun callModule callMain exitActs).map (fun r =>
      terminatorsBegun (handlerId callModule) r.1) = some 0 := by rfl
  rw [hr, Option.map_some, Option.some.injEq] at hcounts
  obtain ⟨n, hn⟩ := hreached.run.costed (abandoned (instrumented callModule callMain (counter callModule))
    (handlerFn callModule callMain).id)
  obtain ⟨heq, hopened⟩ := blocksEntered_eq ready_callModule ready_callModule.runOnModule
    ready_callModule.getFunction_instrumented hn
  have hone : n = 1 := by
    rw [hopened hdone, hid, hentered, hcounts] at heq
    omega
  subst hone
  refine ⟨_, _, ready_callModule.runOnModule, ready_callModule.getFunction_instrumented, es, s, hn, hdone, ?_⟩
  rw [hid]
  exact ⟨hentered, hcounts⟩

/-- **What the reports of a program say**: there is one for each entry of `main`, and each shows the number of
blocks entered before it, less the frames abandoned before it. -/
theorem printedNumber_eq {M M' : Module} {main H : Function} {D : DataSem} {imports : ℕ → Option D.Content}
    {es : List (Event D.toDataOps)} {s : State D.toDataOps} (hM : Ready M main) (hX : External M)
    (hM' : runOnModule M = .ok M') (hH : M'.getFunction atexitCallStr = some H)
    (hs : Reached M M' imports es s) (hend : s.control = .done true) :
    (es.filterMap (printedNumber H.id)).length = es.countP (entersMain M' main) ∧
      es.countP (startsHandler H.id) = es.countP (entersMain M' main) ∧
      ∀ pre e post, es = pre ++ e :: post → startsHandler H.id e = true →
        ∃ t n, CostedRun M'.step (abandoned M' H.id) (M'.initState imports) pre t n ∧
          n ≤ blocksEntered M' H.id pre ∧
          (es.filterMap (printedNumber H.id))[pre.countP (startsHandler H.id)]? =
            some (lowSigned (BitVec.ofNat 64 (blocksEntered M' H.id pre - n))) := by
  obtain ⟨rfl, hid⟩ := hM.result_eq hM' hH
  rw [hid]
  obtain ⟨honce, hprinted⟩ := hM.reported_done hX hs hend
  refine ⟨?_, honce.symm, ?_⟩
  · rw [hprinted, List.length_map, length_startCounts, honce]
  · intro pre e post hes he
    obtain ⟨t, n, hcost, hbalance, -⟩ := blocksEntered_split hM.distinct_instrumented
      hM.terminatorsLast_instrumented (hes ▸ hs.run) he
    refine ⟨t, n, hcost, by omega, ?_⟩
    rw [hprinted, List.getElem?_map, hes, getElem?_startCounts pre post he, Nat.zero_add, Option.map_some]
    have hcount : blocksEntered (instrumented M main (counter M)) (handlerId M) pre - n =
        terminatorsBegun (handlerId M) pre := by omega
    rw [hcount]

/-- The report of `callModule` after an `exit()`: the one block entered is not in it. -/
theorem printedNumber_eq_callModule : ∃ M' H, runOnModule callModule = .ok M' ∧
    M'.getFunction atexitCallStr = some H ∧
    ∃ (es : List (Event wordSem.toDataOps)) (s : State wordSem.toDataOps),
      Reached callModule M' (fun _ => none) es s ∧ s.control = .done true ∧
        ∃ (pre post : List (Event wordSem.toDataOps)) (e : Event wordSem.toDataOps)
          (t : State wordSem.toDataOps) (n : ℕ), es = pre ++ e :: post ∧
          CostedRun M'.step (abandoned M' H.id) (M'.initState fun _ => none) pre t n ∧
          lowSigned (BitVec.ofNat 64 (blocksEntered M' H.id pre - n)) = 0 := by
  have hX : External callModule := External.of_absent rfl rfl
  have hid : (handlerFn callModule callMain).id = handlerId callModule := ready_callModule.handlerDecl_id
  have hreport : reportOf callModule callMain exitActs = some (true, true, 1, 1, [0]) := by rfl
  obtain ⟨es, s, hr, hreached, hdone, hstarts, -, hprinted⟩ := exists_reached hreport
  have hmem : ∃ e ∈ es, startsHandler (handlerId callModule) e = true := by
    rw [← List.countP_pos_iff, hstarts]
    exact Nat.one_pos
  obtain ⟨e, he, hstart⟩ := hmem
  obtain ⟨pre, post, hes⟩ := List.append_of_mem he
  obtain ⟨-, -, hall⟩ := printedNumber_eq ready_callModule hX ready_callModule.runOnModule
    ready_callModule.getFunction_instrumented hreached hdone
  rw [← hid] at hstart hprinted
  obtain ⟨t, n, hcost, -, hshown⟩ := hall pre e post hes hstart
  refine ⟨_, _, ready_callModule.runOnModule, ready_callModule.getFunction_instrumented, es, s, hreached, hdone,
    pre, post, e, t, n, hes, hcost, ?_⟩
  -- the only number printed is zero
  have hzero := List.mem_of_getElem? hshown
  rw [hprinted] at hzero
  exact List.mem_singleton.mp hzero

/-! ### When the report is right -/

/-- The condition on the numbers at the start of the handler, by frames and blocks. -/
theorem Ready.reportRight_frames {M : Module} {main : Function} {D : DataSem} {imports : ℕ → Option D.Content}
    {es : List (Event D.toDataOps)} {s : State D.toDataOps} (hM : Ready M main) (hX : External M)
    (hs : Reached M (instrumented M main (counter M)) imports es s) (hend : s.control = .done true) :
    ReportRight (instrumented M main (counter M)) (handlerId M) es ↔
      es.countP (entersMain (instrumented M main (counter M)) main) = 1 ∧
      (blocksEntered (instrumented M main (counter M)) (handlerId M) es < 2 ^ 63 →
        blocksEntered (instrumented M main (counter M)) (handlerId M) es < 2 ^ 31 ∧
        ∀ pre e post, es = pre ++ e :: post → startsHandler (handlerId M) e = true →
          (∃ t, CostedRun (instrumented M main (counter M)).step
            (abandoned (instrumented M main (counter M)) (handlerId M))
            ((instrumented M main (counter M)).initState imports) pre t 0) ∧
          blocksEntered (instrumented M main (counter M)) (handlerId M) post = 0) := by
  rw [hM.reportRight_counts hX hs hend]
  refine and_congr_right fun _ => imp_congr_right fun _ => and_congr_right fun _ => ?_
  constructor
  · rintro hall pre e post rfl he
    obtain ⟨t, n, hcost, -, htotal⟩ := blocksEntered_split hM.distinct_instrumented
      hM.terminatorsLast_instrumented hs.run he
    have hcount := hall _ (List.mem_of_getElem? (getElem?_startCounts pre post he))
    rw [htotal] at hcount
    obtain rfl : n = 0 := by omega
    exact ⟨⟨t, hcost⟩, by omega⟩
  · intro hall n hn
    obtain ⟨pre, e, post, rfl, he, rfl⟩ := exists_start_of_mem hn
    obtain ⟨t, n, hcost, -, htotal⟩ := blocksEntered_split hM.distinct_instrumented
      hM.terminatorsLast_instrumented hs.run he
    obtain ⟨⟨t', hfree⟩, hquiet⟩ := hall pre e post rfl he
    obtain ⟨-, rfl⟩ := hcost.cost_unique step_action hfree
    rw [htotal, hquiet, Nat.zero_add]
    rfl

/-- **When the report of `count-bb` is right.** -/
theorem reportRight_iff {M M' : Module} {main H : Function} {D : DataSem} {imports : ℕ → Option D.Content}
    {es : List (Event D.toDataOps)} {s : State D.toDataOps} (hM : Ready M main) (hX : External M)
    (hM' : runOnModule M = .ok M') (hH : M'.getFunction atexitCallStr = some H)
    (hs : Reached M M' imports es s) (hend : s.control = .done true) :
    ReportRight M' H.id es ↔ es.countP (entersMain M' main) = 1 ∧
      (blocksEntered M' H.id es < 2 ^ 63 → blocksEntered M' H.id es < 2 ^ 31 ∧
        ∀ pre e post, es = pre ++ e :: post → startsHandler H.id e = true →
          (∃ t, CostedRun M'.step (abandoned M' H.id) (M'.initState imports) pre t 0) ∧
            blocksEntered M' H.id post = 0) := by
  obtain ⟨rfl, hid⟩ := hM.result_eq hM' hH
  rw [hid]
  exact hM.reportRight_frames hX hs hend

theorem ready_catchModule : Ready catchModule catchMain where
  wf := catchModule_wellFormed
  mainFn := rfl
  defined := rfl
  noCounter := by decide
  noHandler := by decide
  printf V hV := by cases hV
  atexit V hV := by cases hV

/-- `main` is run, `f` throws, `main` catches what it throws and returns, and the handler reports. -/
def caughtActs : List (Act wordSem.toDataOps) :=
  [.runMain [], .tick, .tick, .tick, .tick, .tick, .throw (.int 64 7)] ++ List.replicate 10 .tick ++ reportActs ++
    [.finish]

/-- In the run along `caughtActs` three blocks are entered, three terminators begun and three reported. -/
theorem exists_caught : ∃ es s, instrumentedRun catchModule catchMain caughtActs = some (es, s) ∧
    Reached (D := wordSem) catchModule (instrumented catchModule catchMain (counter catchModule)) (fun _ => none)
      es s ∧ s.control = .done true ∧
    ReportRight (instrumented catchModule catchMain (counter catchModule)) (handlerId catchModule) es ∧
    blocksEntered (instrumented catchModule catchMain (counter catchModule)) (handlerId catchModule) es = 3 ∧
    terminatorsBegun (handlerId catchModule) es = 3 := by
  have hreport : reportOf catchModule catchMain caughtActs = some (true, true, 1, 3, [3]) := by rfl
  obtain ⟨es, s, hr, hreached, hdone, hstarts, hentered, hprinted⟩ := exists_reached hreport
  have hcounts : (instrumentedRun catchModule catchMain caughtActs).map (fun r =>
      terminatorsBegun (handlerId catchModule) r.1) = some 3 := by rfl
  rw [hr, Option.map_some, Option.some.injEq] at hcounts
  refine ⟨es, s, hr, hreached, hdone, ⟨hstarts, fun _ => ?_⟩, hentered, hcounts⟩
  rw [hentered, hprinted]
  rfl

/-- `main` catches the exception: no frame is abandoned before the handler starts, and no block entered after. -/
theorem reportRight_iff_catch : ∃ M' H, runOnModule catchModule = .ok M' ∧
    M'.getFunction atexitCallStr = some H ∧
    ∃ es s, Reached (D := wordSem) catchModule M' (fun _ => none) es s ∧ s.control = .done true ∧
      blocksEntered M' H.id es = 3 ∧ ReportRight M' H.id es ∧
      ∀ pre e post, es = pre ++ e :: post → startsHandler H.id e = true →
        (∃ t, CostedRun M'.step (abandoned M' H.id) (M'.initState fun _ => none) pre t 0) ∧
          blocksEntered M' H.id post = 0 := by
  have hX : External catchModule := External.of_absent rfl rfl
  have hid : (handlerFn catchModule catchMain).id = handlerId catchModule := ready_catchModule.handlerDecl_id
  obtain ⟨es, s, -, hreached, hdone, hright, hentered, -⟩ := exists_caught
  rw [← hid] at hright hentered
  refine ⟨_, _, ready_catchModule.runOnModule, ready_catchModule.getFunction_instrumented, es, s, hreached, hdone,
    hentered, hright, ?_⟩
  refine (((reportRight_iff ready_catchModule hX ready_catchModule.runOnModule
    ready_catchModule.getFunction_instrumented hreached hdone).mp hright).2 ?_).2
  rw [hentered]
  decide

end SnippetsLlvm.CountBB
