import SnippetsLlvm.CountBB.Tracked

/-!
# Blocks entered and blocks counted

A block is entered when its first instruction is executed, and counted when its terminator begins.  Between
the two its frame is open; a frame that `exit()` or an exception leaves there is never counted.

* `entersBlock`, `blocksEntered` — the block executions of a run;
* `Frame.opened`, `opened` — the frames that have entered their block and not begun its terminator;
* `step_entered` — what one step does to the three numbers;
* `run_entered` — **along a run no more terminators begin than blocks are entered**.
-/

namespace SnippetsLlvm.CountBB

open SnippetsLlvm.Ir SnippetsLlvm.Library

/-! ### Entering a block -/

/-- Whether the instructions `is` begin with the first one of the block `b` of the function `g`. -/
def isFront (M : Module) (g b : ℕ) (is : List Instruction) : Bool :=
  ((M.block? g b).bind fun B => B.insts.head?).any fun I =>
    is.head?.any fun J => J.id == I.id && J.opcode == I.opcode

/-- Whether an event enters a block of a function other than `h`. -/
def entersBlock {D : DataOps} (M : Module) (h : ℕ) : Event D → Bool
  | .exec g b is _ => g ≠ h && isFront M g b is
  | _ => false

/-- The number of block executions entered outside the function `h`. -/
def blocksEntered {D : DataOps} (M : Module) (h : ℕ) (es : List (Event D)) : ℕ :=
  es.countP (entersBlock M h)

/-- Terminators come last in their blocks. -/
def TerminatorsLast (M : Module) : Prop :=
  ∀ g b B, M.block? g b = some B → ∀ pre I post, B.insts = pre ++ I :: post → I.isTerminator = true →
    post = []

/-! ### Open frames -/

section Opened

variable (M : Module) (h : ℕ) {D : DataOps}

/-- Whether a frame of a function other than `h` is past the front of its block and has not begun its
terminator. -/
def openedFrame (fr : Frame D) : Bool :=
  fr.fn ≠ h && fr.todo.length ≠ 0 && (M.block? fr.fn fr.block).map (·.insts.length) ≠ some fr.todo.length

/-- Whether what waits is an open frame. -/
def openedCont : Cont D → Bool
  | .frame fr _ => openedFrame M h fr
  | .env _ => false

/-- Whether what runs is an open frame. -/
def openedControl : Control D → Bool
  | .exec fr => openedFrame M h fr
  | _ => false

/-- The number of open frames. -/
def opened (s : State D) : ℕ := (openedControl M h s.control).toNat + s.conts.countP (openedCont M h)

/-- What a function contributes at most. -/
def weight (g : ℕ) : ℕ := if g = h then 0 else 1

end Opened

section Steps

variable {M : Module} {h : ℕ} {D : DataOps}

theorem entersBlock_env (s : State D) (a : Act D) : entersBlock M h (envEvent s a) = false := by
  cases a <;> rfl

theorem blocksEntered_snoc (es : List (Event D)) (e : Event D) :
    blocksEntered M h (es ++ [e]) = blocksEntered M h es + (entersBlock M h e).toNat := by
  rw [blocksEntered, blocksEntered, List.countP_append, List.countP_singleton]
  cases entersBlock M h e <;> rfl

theorem opened_mk (c : Control D) (ks : List (Cont D)) (mem : Obj → Option D.Content) (hs : List ℕ)
    (n : ℕ) : opened M h ⟨c, ks, mem, hs, n⟩ =
      (openedControl M h c).toNat + ks.countP (openedCont M h) := rfl

theorem openedControl_exec (fr : Frame D) : openedControl M h (.exec fr) = openedFrame M h fr := rfl

/-- A frame at the front of its block is not open. -/
theorem openedFrame_front {fr : Frame D} {B : BasicBlock} (hB : M.block? fr.fn fr.block = some B)
    (ht : fr.todo = B.insts) : openedFrame M h fr = false := by
  simp [openedFrame, hB, ht]

/-- A frame that has begun its terminator is not open. -/
theorem openedFrame_nil {fr : Frame D} (ht : fr.todo = []) : openedFrame M h fr = false := by
  simp [openedFrame, ht]

theorem openedFrame_le {fr : Frame D} {g : ℕ} (hfn : fr.fn = g) :
    (openedFrame M h fr).toNat ≤ weight h g := by
  subst hfn
  rw [weight]
  by_cases hg : fr.fn = h
  · simp [openedFrame, hg]
  · rw [if_neg hg]
    exact Bool.toNat_le _

theorem beginsTerminator_le (g b : ℕ) (is : List Instruction) (vs : List (Val D.Data)) :
    (beginsTerminator h (.exec g b is vs : Event D)).toNat ≤ weight h g := by
  rw [weight]
  by_cases hg : g = h
  · simp [beginsTerminator, hg]
  · rw [if_neg hg]
    exact Bool.toNat_le _

/-- **A frame that executes its next instruction is open or enters its block.** -/
theorem weight_le {fr : Frame D} {I : Instruction} {rest is : List Instruction} (vs : List (Val D.Data))
    (hfr : fr.At M) (ht : fr.todo = I :: rest) (his : is.head? = some I) :
    weight h fr.fn ≤
      (openedFrame M h fr).toNat + (entersBlock M h (.exec fr.fn fr.block is vs : Event D)).toNat := by
  obtain ⟨B, hB, pre, hpre⟩ := hfr
  rw [weight]
  by_cases hg : fr.fn = h
  · rw [if_pos hg]
    exact Nat.zero_le _
  rw [if_neg hg]
  cases pre with
  | nil =>
    have henters : entersBlock M h (.exec fr.fn fr.block is vs : Event D) = true := by
      simp [entersBlock, isFront, hB, hpre, ht, his, hg]
    rw [henters]
    exact Nat.le_add_left _ _
  | cons J pre =>
    have hlen : B.insts.length = pre.length + 1 + fr.todo.length := by
      rw [hpre, List.length_append, List.length_cons]
    have hopen : openedFrame M h fr = true := by
      have hpos : fr.todo.length ≠ 0 := by simp [ht]
      have hne : B.insts.length ≠ fr.todo.length := by omega
      simp [openedFrame, hB, hne, hpos, hg]
    rw [hopen]
    exact Nat.le_add_right _ _

/-- What a frame waiting for a result becomes when it gets it is no more open than it was. -/
theorem openedFrame_deliver {fr fr' : Frame D} {site : Instruction} {v : Val D.Data}
    (hd : M.deliver fr site v = some fr') : (openedFrame M h fr').toNat ≤ (openedFrame M h fr).toNat := by
  rcases deliver_inv hd with ⟨-, -, -, rfl⟩ | ⟨-, B, hB, ht, -⟩
  · exact Nat.le_refl _
  · rw [openedFrame_front hB ht]
    exact Nat.zero_le _

theorem openedFrame_jump {fr fr' : Frame D} {b : ℕ} {pad : Option (Val D.Data)}
    (hj : M.jump fr b pad = some fr') : openedFrame M h fr' = false := by
  obtain ⟨B, hB, ht, -⟩ := jump_inv hj
  exact openedFrame_front hB ht

theorem openedFrame_enter {g : ℕ} {F : Function} {args : List (Val D.Data)} {fr : Frame D}
    (hF : M.function? g = some F) (hfr : F.enter args = some fr) : openedFrame M h fr = false := by
  obtain ⟨E, -, hB, ht, -⟩ := enter_inv hF hfr
  exact openedFrame_front hB ht

variable (hM : TerminatorsLast M)
include hM

/-- **An instruction is a terminator or leaves its frame open**, not both. -/
theorem spent {fr : Frame D} {I : Instruction} {rest : List Instruction} (vs : List (Val D.Data))
    (hfr : fr.At M) (ht : fr.todo = I :: rest) :
    (beginsTerminator h (.exec fr.fn fr.block [I] vs : Event D)).toNat +
      (openedFrame M h { fr with todo := rest }).toNat ≤ weight h fr.fn := by
  by_cases hI : I.isTerminator = true
  · obtain ⟨B, hB, pre, hpre⟩ := hfr
    have hnil : rest = [] := hM _ _ B hB pre I rest (by rw [hpre, ht]) hI
    have hclosed : openedFrame M h { fr with todo := rest } = false := openedFrame_nil hnil
    rw [hclosed]
    exact beginsTerminator_le _ _ _ _
  · rw [beginsTerminator_plain (by simpa using hI)]
    have hle : (openedFrame M h { fr with todo := rest }).toNat ≤ weight h fr.fn := openedFrame_le rfl
    show 0 + _ ≤ _
    omega

omit hM in
theorem countP_opened_cons (k : Cont D) (ks : List (Cont D)) :
    (k :: ks).countP (openedCont M h) = (openedCont M h k).toNat + ks.countP (openedCont M h) := by
  rw [List.countP_cons, Nat.add_comm]
  cases openedCont M h k <;> rfl

omit hM in
/-- A return opens no frame. -/
theorem opened_return {v : Val D.Data} {ks : List (Cont D)} {r : Control D × List (Cont D)}
    (hr : M.returnTo v ks = some r) :
    (openedControl M h r.1).toNat + r.2.countP (openedCont M h) ≤ ks.countP (openedCont M h) := by
  cases return_cases hr with
  | @frame fr site rest fr' hd =>
    have hle := openedFrame_deliver (h := h) hd
    rw [countP_opened_cons]
    exact Nat.add_le_add_right hle _
  | main => exact Nat.zero_le _
  | env =>
    rw [countP_opened_cons]
    exact Nat.le_refl _

omit hM in
/-- An exception opens no frame. -/
theorem opened_unwind {exn : Val D.Data} {ks : List (Cont D)} {r : Control D × List (Cont D)}
    (hr : M.unwind exn ks = some r) :
    (openedControl M h r.1).toNat + r.2.countP (openedCont M h) ≤ ks.countP (openedCont M h) := by
  cases unwind_cases hr with
  | @caught fr site rest ft c b fr' hop hp hb hj =>
    have hclosed : openedControl M h (.exec fr') = false := openedFrame_jump hj
    rw [countP_opened_cons, hclosed]
    exact Nat.add_le_add_right (Nat.zero_le _) _
  | passed =>
    rw [countP_opened_cons]
    exact Nat.add_le_add_right (Nat.zero_le _) _
  | ext =>
    rw [countP_opened_cons]
    exact Nat.le_refl _
  | terminate => exact Nat.zero_le _

omit hM in
/-- The environment opens no frame. -/
theorem opened_envStep {s s' : State D} {k : EnvKind} {a : Act D} (hk : s.control = .env k)
    (henv : M.envStep s k a = some s') : opened M h s' ≤ opened M h s := by
  have hidle : openedControl M h s.control = false := by
    rw [hk]
    rfl
  have hstart : ∀ {g F args fr k' mem hs n}, M.function? g = some F → F.enter args = some fr →
      opened M h ⟨.exec fr, .env k' :: s.conts, mem, hs, n⟩ ≤ opened M h s := by
    intro g F args fr k' mem hs n hF hfr
    have hclosed : openedControl M h (.exec fr) = false := openedFrame_enter hF hfr
    rw [opened, opened, countP_opened_cons, hclosed]
    show 0 + (0 + _) ≤ _
    omega
  cases env_cases henv with
  | @ret fr site rest v fr' hconts hd =>
    have hle : (openedControl M h (.exec fr')).toNat ≤ (openedFrame M h fr).toNat := openedFrame_deliver hd
    rw [opened_mk, opened, hconts, countP_opened_cons]
    show _ ≤ _ + ((openedFrame M h fr).toNat + _)
    omega
  | callback hF hfr => exact hstart hF hfr
  | runMain _ hF hfr => exact hstart hF hfr
  | runHandler _ hF hfr => exact hstart hF hfr
  | exit => exact Nat.zero_le _
  | throw =>
    rw [opened, opened, hidle]
    exact Nat.le_refl _
  | finish =>
    rw [opened, opened, hidle]
    exact Nat.le_refl _
  | abort =>
    rw [opened, opened, hidle]
    exact Nat.le_refl _
  | write => exact Nat.le_refl _
  | malloc => exact Nat.le_refl _
  | skipHandler => exact Nat.le_refl _

/-- **A step that begins a terminator closes a frame, and one that opens a frame enters a block.** -/
theorem step_entered {s s' : State D} {a : Act D} {e : Event D} (hs : Positioned M s)
    (hstep : M.step s a = some (e, s')) :
    (beginsTerminator h e).toNat + opened M h s' ≤ opened M h s + (entersBlock M h e).toNat := by
  -- the running frame pays for its step
  have hpaid : ∀ {fr I rest} is vs, s.control = .exec fr → fr.todo = I :: rest → is.head? = some I →
      weight h fr.fn + s.conts.countP (openedCont M h) ≤
        opened M h s + (entersBlock M h (.exec fr.fn fr.block is vs : Event D)).toNat := by
    intro fr I rest is vs hc ht his
    have hle := weight_le (h := h) vs (hs.control fr hc) ht his
    rw [opened, hc]
    show _ ≤ (openedFrame M h fr).toNat + _ + _
    omega
  -- a step within the frame
  have hmoved : ∀ {fr fr' I rest vs mem hds n}, s.control = .exec fr → fr.todo = I :: rest →
      (openedFrame M h fr').toNat ≤ (openedFrame M h { fr with todo := rest }).toNat →
      (beginsTerminator h (.exec fr.fn fr.block [I] vs : Event D)).toNat +
          opened M h ⟨.exec fr', s.conts, mem, hds, n⟩ ≤
        opened M h s + (entersBlock M h (.exec fr.fn fr.block [I] vs : Event D)).toNat := by
    intro fr fr' I rest vs mem hds n hc ht hle
    have hspent := spent (h := h) hM vs (hs.control fr hc) ht
    have hpay := hpaid [I] vs hc ht rfl
    rw [opened_mk, openedControl_exec]
    omega
  -- a step that leaves the frame
  have hleft : ∀ {fr I rest vs} {c : Control D} {ks : List (Cont D)} {mem hds n}, s.control = .exec fr →
      fr.todo = I :: rest →
      (openedControl M h c).toNat + ks.countP (openedCont M h) ≤ s.conts.countP (openedCont M h) →
      (beginsTerminator h (.exec fr.fn fr.block [I] vs : Event D)).toNat + opened M h ⟨c, ks, mem, hds, n⟩ ≤
        opened M h s + (entersBlock M h (.exec fr.fn fr.block [I] vs : Event D)).toNat := by
    intro fr I rest vs c ks mem hds n hc ht hle
    have hbegins := beginsTerminator_le (D := D) (h := h) fr.fn fr.block [I] vs
    have hpay := hpaid [I] vs hc ht rfl
    rw [opened_mk]
    omega
  -- a call, from the frame that waits for it
  have hcalled : ∀ {fr I rest vs} {c : Control D} {mem hds n}, s.control = .exec fr →
      fr.todo = I :: rest → openedControl M h c = false →
      (beginsTerminator h (.exec fr.fn fr.block [I] vs : Event D)).toNat +
          opened M h ⟨c, .frame { fr with todo := rest } I :: s.conts, mem, hds, n⟩ ≤
        opened M h s + (entersBlock M h (.exec fr.fn fr.block [I] vs : Event D)).toNat := by
    intro fr I rest vs c mem hds n hc ht hclosed
    have hspent := spent (h := h) hM vs (hs.control fr hc) ht
    have hpay := hpaid [I] vs hc ht rfl
    rw [opened_mk, countP_opened_cons, hclosed]
    show _ + (0 + ((openedFrame M h { fr with todo := rest }).toNat + _)) ≤ _
    omega
  cases step_cases hstep with
  | @phis fr I rest vs hc ht hphi =>
    have his : (fr.todo.takeWhile Instruction.isPhi).head? = some I := by
      rw [ht, List.takeWhile_cons_of_pos hphi, List.head?_cons]
    have hpay := hpaid _ vs hc ht his
    rw [beginsTerminator_phis]
    have hle : (openedFrame M h { fr.setAll (fr.todo.takeWhile Instruction.isPhi) vs with
        todo := fr.todo.dropWhile Instruction.isPhi }).toNat ≤ weight h fr.fn :=
      openedFrame_le (Frame.setAll_fn _ _ _)
    rw [opened_mk, openedControl_exec]
    show 0 + _ ≤ _
    omega
  | value hc ht => exact hmoved hc ht (Nat.le_refl _)
  | alloca hc ht => exact hmoved hc ht (Nat.le_refl _)
  | memory hc ht => exact hmoved hc ht (Nat.le_refl _)
  | register hc ht _ _ _ _ _ _ _ hd => exact hmoved hc ht (openedFrame_deliver hd)
  | callOut hc ht => exact hcalled hc ht rfl
  | callIn hc ht _ _ _ hF hfr => exact hcalled hc ht (openedFrame_enter hF hfr)
  | ret hc ht _ _ hr => exact hleft hc ht (opened_return hr)
  | goto hc ht _ _ _ hj =>
    refine hleft hc ht ?_
    rw [openedControl_exec, openedFrame_jump hj]
    show 0 + _ ≤ _
    omega
  | raise hc ht =>
    refine hleft hc ht ?_
    show 0 + _ ≤ _
    omega
  | unwind hc hr =>
    have hle := opened_unwind (h := h) hr
    rw [opened_mk, opened, hc]
    show 0 + _ ≤ 0 + _ + 0
    omega
  | env hk henv =>
    have hle := opened_envStep (h := h) hk henv
    rw [beginsTerminator_env, entersBlock_env]
    show 0 + _ ≤ _ + 0
    omega

/-- **Along a run no more terminators begin than blocks are entered.** -/
theorem run_entered {imports : ℕ → Option D.Content} {es : List (Event D)} {s : State D}
    (hrun : Run M.step (M.initState imports) es s) :
    terminatorsBegun h es + opened M h s ≤ blocksEntered M h es := by
  have hinv : Positioned M s ∧ terminatorsBegun h es + opened M h s ≤ blocksEntered M h es := by
    refine Run.traceInvariant (fun es s => Positioned M s ∧ terminatorsBegun h es + opened M h s ≤
      blocksEntered M h es) (fun _ => True) ?_ hrun (fun _ _ => trivial) ⟨initState_positioned _ _, ?_⟩
    · intro es s a e s' ⟨hpos, hle⟩ _ hstep
      refine ⟨step_positioned hpos hstep, ?_⟩
      have hone := step_entered (h := h) hM hpos hstep
      rw [terminatorsBegun_snoc, blocksEntered_snoc]
      omega
    · exact Nat.zero_le _
  exact hinv.2

end Steps

namespace Ready

variable {M : Module} {main : Function} (hM : Ready M main)
include hM

/-- The pass leaves the terminators last. -/
theorem terminatorsLast_instrumented : TerminatorsLast (instrumented M main (counter M)) := by
  have hlast : ∀ {body : List Instruction} {t : Instruction}, (∀ I ∈ body, I.isTerminator = false) →
      ∀ pre I post, body ++ [t] = pre ++ I :: post → I.isTerminator = true → post = [] := by
    intro body t hbody pre I post hsplit hI
    rcases List.eq_nil_or_concat post with hnil | ⟨post, J, rfl⟩
    · exact hnil
    · rw [List.concat_eq_append, ← List.cons_append, ← List.append_assoc] at hsplit
      have hmem : I ∈ body := by
        rw [(List.append_inj' hsplit rfl).1]
        exact List.mem_append_right _ List.mem_cons_self
      rw [hbody I hmem] at hI
      cases hI
  intro g b B hB pre I post hsplit hI
  by_cases hg : g = handlerId M
  · subst hg
    rw [hM.block?_handler hB] at hsplit
    have hplain : ∀ J ∈ [handlerLoad 0 (counter M), handlerCall 0 (counter M) (printfId M main)
        (format M main)], J.isTerminator = false := by
      intro J hJ
      simp only [List.mem_cons, List.not_mem_nil, or_false] at hJ
      rcases hJ with rfl | rfl <;> rfl
    exact hlast hplain pre I post hsplit hI
  · obtain ⟨K, hK⟩ := hM.block?_inv hg hB
    rw [hK, Counted.insts] at hsplit
    refine hlast ?_ pre I post hsplit hI
    intro J hJ
    rw [List.append_assoc, List.mem_append, List.mem_append] at hJ
    rcases hJ with hJ | hJ | hJ
    · rw [eq_of_mem_frontInsts hJ]
      rfl
    · exact K.plain J hJ
    · simp only [countInsts, List.mem_cons, List.not_mem_nil, or_false] at hJ
      rcases hJ with rfl | rfl | rfl <;> rfl

end Ready

end SnippetsLlvm.CountBB
