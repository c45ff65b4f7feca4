import SnippetsLlvm.Ir.Machine
import SnippetsLlvm.Library.LabelledRuns

/-!
# What one step can do

`StepCase` lists the steps of the machine, each with everything that made it possible, and `step_cases`
says that every step is one of them; the proofs about runs go by cases on it and do not unfold the step
function again.

`EnvCase` and `env_cases` do the same for the actions of the environment.

`Positioned` is the first invariant proved that way: a running frame stands at a suffix of its block, a
waiting frame just after its call.  It holds on every run of every module, and with it what a step executes
are instructions of the running block (`exec_mem`).
-/

namespace SnippetsLlvm.Ir

open SnippetsLlvm.Library

variable (M : Module) {D : DataOps}

/-- The steps of the machine from `s`. -/
inductive StepCase (s : State D) : Act D → Event D → State D → Prop where
  | phis {fr I rest vs} : s.control = .exec fr → fr.todo = I :: rest → I.isPhi = true →
      M.phiVals fr (fr.todo.takeWhile Instruction.isPhi) = some vs →
      StepCase s .tick (.exec fr.fn fr.block (fr.todo.takeWhile Instruction.isPhi) vs)
        { s with control := .exec { fr.setAll (fr.todo.takeWhile Instruction.isPhi) vs with
                                    todo := fr.todo.dropWhile Instruction.isPhi } }
  | value {fr I rest vs v} : s.control = .exec fr → fr.todo = I :: rest → I.opcode.kind = .value →
      M.operandVals fr I = some vs → D.eval I fr.pad vs = some v →
      StepCase s .tick (.exec fr.fn fr.block [I] vs)
        { s with control := .exec ({ fr with todo := rest }.set I.id v) }
  | alloca {fr I rest vs c} : s.control = .exec fr → fr.todo = I :: rest →
      I.opcode.kind = .alloca → M.operandVals fr I = some vs → D.alloc I vs = some c →
      StepCase s .tick (.exec fr.fn fr.block [I] vs)
        { s with control := .exec ({ fr with todo := rest }.set I.id (.ptr (.dyn s.nextDyn) 0)),
                 mem := fun o => if o = .dyn s.nextDyn then some c else s.mem o,
                 nextDyn := s.nextDyn + 1 }
  | memory {fr I rest vs o off c c' v} : s.control = .exec fr → fr.todo = I :: rest →
      I.opcode.kind = .memory → M.operandVals fr I = some vs →
      vs[I.pointerIndex]? = some (.ptr o off) → s.mem o = some c →
      D.access I c off vs = some (c', v) →
      StepCase s .tick (.exec fr.fn fr.block [I] vs)
        { s with control := .exec ({ fr with todo := rest }.set I.id v),
                 mem := fun o' => if o' = o then some c' else s.mem o' }
  | register {fr I rest vs a A h fr'} : s.control = .exec fr → fr.todo = I :: rest →
      I.opcode.kind = .call → M.operandVals fr I = some vs →
      vs.getLast? = some (.ptr (.global a) 0) → M.function? a = some A → A.isDeclaration = true →
      A.name = "atexit" → callArgVals vs = [.ptr (.global h) 0] →
      M.deliver { fr with todo := rest } I (.int 32 0) = some fr' →
      StepCase s .tick (.exec fr.fn fr.block [I] vs)
        { s with control := .exec fr', handlers := h :: s.handlers }
  | callOut {fr I rest vs} : s.control = .exec fr → fr.todo = I :: rest →
      I.opcode.kind = .call → M.operandVals fr I = some vs →
      (∀ a A, vs.getLast? = some (.ptr (.global a) 0) → M.function? a = some A →
        A.isDeclaration = true ∧ A.name ≠ "atexit") →
      StepCase s .tick (.exec fr.fn fr.block [I] vs)
        { s with control := .env .ext, conts := .frame { fr with todo := rest } I :: s.conts }
  | callIn {fr I rest vs a A fr'} : s.control = .exec fr → fr.todo = I :: rest →
      I.opcode.kind = .call → M.operandVals fr I = some vs →
      vs.getLast? = some (.ptr (.global a) 0) → M.function? a = some A →
      A.enter (callArgVals vs) = some fr' →
      StepCase s .tick (.exec fr.fn fr.block [I] vs)
        { s with control := .exec fr', conts := .frame { fr with todo := rest } I :: s.conts }
  | ret {fr I rest vs r} : s.control = .exec fr → fr.todo = I :: rest → I.opcode.kind = .ret →
      M.operandVals fr I = some vs → M.returnTo (vs.head?.getD .void) s.conts = some r →
      StepCase s .tick (.exec fr.fn fr.block [I] vs) { s with control := r.1, conts := r.2 }
  | goto {fr I rest vs b pad fr'} : s.control = .exec fr → fr.todo = I :: rest →
      I.opcode.kind = .transfer → M.operandVals fr I = some vs →
      transfer I fr.pad vs = some (.goto b pad) → M.jump { fr with todo := rest } b pad = some fr' →
      StepCase s .tick (.exec fr.fn fr.block [I] vs) { s with control := .exec fr' }
  | raise {fr I rest vs exn} : s.control = .exec fr → fr.todo = I :: rest →
      I.opcode.kind = .transfer → M.operandVals fr I = some vs →
      transfer I fr.pad vs = some (.raise exn) →
      StepCase s .tick (.exec fr.fn fr.block [I] vs) { s with control := .raise exn }
  | unwind {exn r} : s.control = .raise exn → M.unwind exn s.conts = some r →
      StepCase s .tick (.unwind (callerOf s.conts) exn) { s with control := r.1, conts := r.2 }
  | env {k a s'} : s.control = .env k → M.envStep s k a = some s' →
      StepCase s a (envEvent s a) s'

variable {M}

theorem callStep_cases {s : State D} {fr : Frame D} {I : Instruction} {rest : List Instruction}
    {vs : List (Val D.Data)} {s' : State D} (hc : s.control = .exec fr) (ht : fr.todo = I :: rest)
    (hk : I.opcode.kind = .call) (hvs : M.operandVals fr I = some vs)
    (h : M.callStep s { fr with todo := rest } I vs = some s') :
    StepCase M s .tick (.exec fr.fn fr.block [I] vs) s' := by
  rw [Module.callStep] at h
  split at h
  · rename_i g hg
    split at h
    · rename_i A hA
      split at h
      · rename_i hdecl
        split at h
        · rename_i hname
          split at h
          · rename_i r hargs
            obtain ⟨fr', hfr', rfl⟩ := Option.map_eq_some_iff.mp h
            exact .register hc ht hk hvs hg hA hdecl hname hargs hfr'
          · cases h
        · rename_i hname
          cases h
          refine .callOut hc ht hk hvs fun a A' ha hA' => ?_
          rw [hg] at ha
          cases ha
          rw [hA] at hA'
          cases hA'
          exact ⟨hdecl, hname⟩
      · obtain ⟨fr', hfr', rfl⟩ := Option.map_eq_some_iff.mp h
        exact .callIn hc ht hk hvs hg hA hfr'
    · rename_i hA
      split at h
      · cases h
        refine .callOut hc ht hk hvs fun a A' ha hA' => ?_
        rw [hg] at ha
        cases ha
        rw [hA] at hA'
        cases hA'
      · cases h
  -- inline assembly, and pointers the environment made
  · rename_i hasm
    cases h
    exact .callOut hc ht hk hvs fun a A ha _ => nomatch hasm.symm.trans ha
  · rename_i hdyn
    cases h
    exact .callOut hc ht hk hvs fun a A ha _ => nomatch hdyn.symm.trans ha
  · rename_i hdata
    cases h
    exact .callOut hc ht hk hvs fun a A ha _ => nomatch hdata.symm.trans ha
  · cases h

theorem instStep_cases {s : State D} {fr : Frame D} {I : Instruction} {rest : List Instruction}
    {vs : List (Val D.Data)} {s' : State D} (hc : s.control = .exec fr) (ht : fr.todo = I :: rest)
    (hvs : M.operandVals fr I = some vs)
    (h : M.instStep s { fr with todo := rest } I vs = some s') :
    StepCase M s .tick (.exec fr.fn fr.block [I] vs) s' := by
  rw [Module.instStep] at h
  cases hk : I.opcode.kind with
  | phi => simp [hk] at h
  | value =>
    simp only [hk, Option.map_eq_some_iff] at h
    obtain ⟨v, hv, rfl⟩ := h
    exact .value hc ht hk hvs hv
  | alloca =>
    simp only [hk, Option.map_eq_some_iff] at h
    obtain ⟨c, hc', rfl⟩ := h
    exact .alloca hc ht hk hvs hc'
  | memory =>
    simp only [hk] at h
    split at h
    · rename_i o off hptr
      obtain ⟨c, hmem, h⟩ := Option.bind_eq_some_iff.mp h
      obtain ⟨r, hr, rfl⟩ := Option.map_eq_some_iff.mp h
      exact .memory hc ht hk hvs hptr hmem hr
    · cases h
  | call =>
    simp only [hk] at h
    exact callStep_cases hc ht hk hvs h
  | ret =>
    simp only [hk, Option.map_eq_some_iff] at h
    obtain ⟨r, hr, rfl⟩ := h
    exact .ret hc ht hk hvs hr
  | transfer =>
    simp only [hk] at h
    split at h
    · rename_i b pad htr
      obtain ⟨fr', hfr', rfl⟩ := Option.map_eq_some_iff.mp h
      exact .goto hc ht hk hvs htr hfr'
    · rename_i exn htr
      cases h
      exact .raise hc ht hk hvs htr
    · cases h

theorem execStep_cases {s : State D} {fr : Frame D} {e : Event D} {s' : State D}
    (hc : s.control = .exec fr) (h : M.execStep s fr = some (e, s')) : StepCase M s .tick e s' := by
  rw [Module.execStep] at h
  split at h
  · cases h
  · rename_i I rest ht
    split at h
    · rename_i hphi
      obtain ⟨vs, hvs, h⟩ := Option.map_eq_some_iff.mp h
      cases h
      exact .phis hc ht hphi hvs
    · obtain ⟨vs, hvs, h⟩ := Option.bind_eq_some_iff.mp h
      obtain ⟨s'', hs'', h⟩ := Option.map_eq_some_iff.mp h
      cases h
      exact instStep_cases hc ht hvs hs''

/-- **Every step is one of the cases.** -/
theorem step_cases {s : State D} {a : Act D} {e : Event D} {s' : State D}
    (h : M.step s a = some (e, s')) : StepCase M s a e s' := by
  cases hc : s.control with
  | exec fr =>
    cases a with
    | tick =>
      simp only [Module.step, hc] at h
      exact execStep_cases hc h
    | _ => simp [Module.step, hc] at h
  | env k =>
    simp only [Module.step, hc] at h
    obtain ⟨s'', hs'', h⟩ := Option.map_eq_some_iff.mp h
    cases h
    exact .env hc hs''
  | raise exn =>
    cases a with
    | tick =>
      simp only [Module.step, hc] at h
      obtain ⟨r, hr, h⟩ := Option.map_eq_some_iff.mp h
      cases h
      exact .unwind hc hr
    | _ => simp [Module.step, hc] at h
  | done normal => simp [Module.step, hc] at h

/-- The step of a frame whose next instruction is no phi node. -/
theorem step_inst {s s' : State D} {fr : Frame D} {I : Instruction} {rest : List Instruction}
    {vs : List (Val D.Data)} (hc : s.control = .exec fr) (ht : fr.todo = I :: rest)
    (hphi : I.isPhi = false) (hvs : M.operandVals fr I = some vs)
    (h : M.instStep s { fr with todo := rest } I vs = some s') :
    M.step s .tick = some (.exec fr.fn fr.block [I] vs, s') := by
  simp only [Module.step, hc]
  rw [Module.execStep, ht]
  dsimp only
  rw [if_neg (by simp [hphi]), hvs, Option.bind_some, h, Option.map_some]

theorem instStep_call {s : State D} {fr : Frame D} {I : Instruction} {vs : List (Val D.Data)}
    (hk : I.opcode.kind = .call) : M.instStep s fr I vs = M.callStep s fr I vs := by
  rw [Module.instStep, hk]

theorem deliver_call {fr : Frame D} {site : Instruction} {v : Val D.Data} {ft : FunctionType} {mt : Bool}
    (hop : site.opcode = .call ft mt) : M.deliver fr site v = some (fr.set site.id v) := by
  rw [Module.deliver, hop]

/-- A call of the external `atexit`. -/
theorem callStep_atexit {s : State D} {fr : Frame D} {I : Instruction} {vs : List (Val D.Data)}
    {a h : ℕ} {A : Function} (ha : vs.getLast? = some (.ptr (.global a) 0)) (hA : M.function? a = some A)
    (hdecl : A.isDeclaration = true) (hname : A.name = "atexit")
    (hargs : callArgVals vs = [.ptr (.global h) 0]) :
    M.callStep s fr I vs = (M.deliver fr I (.int 32 0)).map fun fr' =>
      { s with control := .exec fr', handlers := h :: s.handlers } := by
  simp only [Module.callStep, ha, hA]
  rw [if_pos hdecl, if_pos hname, hargs]
  rfl

/-- A call of another external function. -/
theorem callStep_external {s : State D} {fr : Frame D} {I : Instruction} {vs : List (Val D.Data)}
    {a : ℕ} {A : Function} (ha : vs.getLast? = some (.ptr (.global a) 0)) (hA : M.function? a = some A)
    (hdecl : A.isDeclaration = true) (hname : A.name ≠ "atexit") :
    M.callStep s fr I vs =
      some { s with control := .env .ext, conts := .frame fr I :: s.conts } := by
  simp only [Module.callStep, ha, hA]
  rw [if_pos hdecl, if_neg hname]

/-! ### Operands that are globals or integers -/

@[simp] theorem resolve_variable (n g : ℕ) (ty : Ty) :
    M.resolve n (.global g .variable ty) = .global g .variable ty := by
  cases n <;> rfl

@[simp] theorem resolve_function (n g : ℕ) (ty : Ty) :
    M.resolve n (.global g .function ty) = .global g .function ty := by
  cases n <;> rfl

@[simp] theorem resolve_int (n w : ℕ) (v : ℤ) : M.resolve n (.int w v) = .int w v := by
  cases n <;> rfl

@[simp] theorem constVal_variable (g : ℕ) (ty : Ty) :
    M.constVal D (.global g .variable ty) = some (.ptr (.global g) 0) := by
  rw [Module.constVal, resolve_variable]

@[simp] theorem constVal_function (g : ℕ) (ty : Ty) :
    M.constVal D (.global g .function ty) = some (.ptr (.global g) 0) := by
  rw [Module.constVal, resolve_function]

@[simp] theorem resolve_expr (n : ℕ) (op : Opcode) (ty : Ty) (cs : List Constant) :
    M.resolve n (.expr op ty cs) = .expr op ty cs := by
  cases n <;> rfl

theorem constVal_expr (op : Opcode) (ty : Ty) (cs : List Constant) :
    M.constVal D (.expr op ty cs) = D.constant (.expr op ty cs) := by
  rw [Module.constVal, resolve_expr]

@[simp] theorem constVal_int (w : ℕ) (v : ℤ) :
    M.constVal D (.int w v) = some (.int w (BitVec.ofInt w v)) := by
  rw [Module.constVal, resolve_int]

/-- Terminators transfer control: they call, return or branch. -/
theorem kind_of_isTerminator {op : Opcode} (h : op.isTerminator = true) :
    op.kind = .call ∨ op.kind = .ret ∨ op.kind = .transfer := by
  cases op <;> simp_all [Opcode.isTerminator, Opcode.kind]

/-- Returns and transfers are terminators. -/
theorem isTerminator_of_kind {I : Instruction} (hk : I.opcode.kind = .ret ∨ I.opcode.kind = .transfer) :
    I.isTerminator = true := by
  rw [Instruction.isTerminator]
  cases hop : I.opcode <;> rw [hop] at hk <;> first | rfl | (rcases hk with hk | hk <;> cases hk)

theorem isTerminator_of_isPhi {I : Instruction} (h : I.isPhi = true) : I.isTerminator = false := by
  rw [Instruction.isPhi] at h
  rw [Instruction.isTerminator]
  cases hop : I.opcode <;> simp_all [Opcode.isPhi, Opcode.isTerminator]

/-! ### The environment -/

/-- The actions of the environment from `s`, in the activity `k`. -/
inductive EnvCase (M : Module) (s : State D) : EnvKind → Act D → State D → Prop where
  | ret {fr site rest v fr'} : s.conts = .frame fr site :: rest → M.deliver fr site v = some fr' →
      EnvCase M s .ext (.ret v) { s with control := .exec fr', conts := rest }
  | throw {exn} : EnvCase M s .ext (.throw exn) { s with control := .raise exn }
  | callback {k g args F fr} : M.function? g = some F → F.enter args = some fr →
      EnvCase M s k (.callback g args) { s with control := .exec fr, conts := .env k :: s.conts }
  | write {k eff} : EnvCase M s k (.write eff) { s with mem := overwrite s.mem eff }
  | malloc {k c} : EnvCase M s k (.malloc c)
      { s with mem := fun o => if o = .dyn s.nextDyn then some c else s.mem o,
               nextDyn := s.nextDyn + 1 }
  | exit {k} : k ≠ .exiting → EnvCase M s k .exit { s with control := .env .exiting, conts := [] }
  | runMain {args main F fr} : M.getFunction "main" = some main → M.function? main.id = some F →
      F.enter args = some fr →
      EnvCase M s .crt (.runMain args)
        { s with control := .exec fr, conts := .env .crtMain :: s.conts }
  | skipHandler {g rest F} : s.handlers = g :: rest → M.function? g = some F →
      F.isDeclaration = true → EnvCase M s .exiting .runHandler { s with handlers := rest }
  | runHandler {g rest F fr} : s.handlers = g :: rest → M.function? g = some F →
      F.enter [] = some fr →
      EnvCase M s .exiting .runHandler
        { s with control := .exec fr, conts := .env .exiting :: s.conts, handlers := rest }
  | finish : s.handlers = [] → EnvCase M s .exiting .finish { s with control := .done true }
  | abort {k} : EnvCase M s k .abort { s with control := .done false }

theorem enterFrom_eq_some {s : State D} {k : EnvKind} {g : ℕ} {args : List (Val D.Data)}
    {s' : State D} (h : M.enterFrom s k g args = some s') :
    ∃ F fr, M.function? g = some F ∧ F.enter args = some fr ∧
      s' = { s with control := .exec fr, conts := .env k :: s.conts } := by
  obtain ⟨F, hF, h⟩ := Option.bind_eq_some_iff.mp h
  obtain ⟨fr, hfr, rfl⟩ := Option.map_eq_some_iff.mp h
  exact ⟨F, fr, hF, hfr, rfl⟩

theorem startHandler_cases {s s' : State D} (h : M.startHandler s = some s') :
    EnvCase M s .exiting .runHandler s' := by
  rw [Module.startHandler] at h
  split at h
  · cases h
  · rename_i g rest hg
    obtain ⟨F, hF, h⟩ := Option.bind_eq_some_iff.mp h
    split at h
    · rename_i hdecl
      cases h
      exact .skipHandler hg hF hdecl
    · obtain ⟨F', fr, hF', hfr, rfl⟩ := enterFrom_eq_some h
      exact .runHandler hg hF' hfr

/-- **Every action of the environment is one of the cases.** -/
theorem env_cases {s : State D} {k : EnvKind} {a : Act D} {s' : State D}
    (h : M.envStep s k a = some s') : EnvCase M s k a s' := by
  cases a with
  | tick => cases h
  | ret v =>
    dsimp only [Module.envStep] at h
    split at h
    · rename_i fr site rest hconts
      obtain ⟨fr', hfr', rfl⟩ := Option.map_eq_some_iff.mp h
      exact .ret hconts hfr'
    · cases h
  | throw exn =>
    cases k with
    | ext => cases h; exact .throw
    | _ => cases h
  | callback g args =>
    obtain ⟨F, fr, hF, hfr, rfl⟩ := enterFrom_eq_some h
    exact .callback hF hfr
  | write eff => cases h; exact .write
  | malloc c => cases h; exact .malloc
  | exit =>
    cases k with
    | exiting => cases h
    | _ => cases h; exact .exit (by simp)
  | runMain args =>
    dsimp only [Module.envStep] at h
    split at h
    · rename_i main hmain
      obtain ⟨F, fr, hF, hfr, rfl⟩ := enterFrom_eq_some h
      exact .runMain hmain hF hfr
    · cases h
  | runHandler =>
    cases k with
    | exiting => exact startHandler_cases h
    | _ => cases h
  | finish =>
    dsimp only [Module.envStep] at h
    split at h
    · rename_i hnil
      cases h
      exact .finish hnil
    · cases h
  | abort => cases h; exact .abort

/-! ### Returns and exceptions -/

/-- Where a returned value goes. -/
inductive ReturnCase (M : Module) (v : Val D.Data) :
    List (Cont D) → Control D × List (Cont D) → Prop where
  | frame {fr site rest fr'} : M.deliver fr site v = some fr' →
      ReturnCase M v (.frame fr site :: rest) (.exec fr', rest)
  | main {rest} : ReturnCase M v (.env .crtMain :: rest) (.env .exiting, [])
  | env {k rest} : k ≠ .crtMain → ReturnCase M v (.env k :: rest) (.env k, rest)

theorem return_cases {v : Val D.Data} {ks : List (Cont D)} {r : Control D × List (Cont D)}
    (h : M.returnTo v ks = some r) : ReturnCase M v ks r := by
  cases ks with
  | nil => cases h
  | cons k rest =>
    cases k with
    | frame fr site =>
      obtain ⟨fr', hfr', rfl⟩ := Option.map_eq_some_iff.mp h
      exact .frame hfr'
    | env k =>
      cases k with
      | crtMain => cases h; exact .main
      | _ => cases h; exact .env (by simp)

/-- Where an exception goes. -/
inductive UnwindCase (M : Module) (exn : Val D.Data) :
    List (Cont D) → Control D × List (Cont D) → Prop where
  | caught {fr site rest ft c b fr'} : site.opcode = .invoke ft →
      (M.function? fr.fn).bind Function.personality = some c → site.blockOperands[1]? = some b →
      M.jump fr b (some exn) = some fr' →
      UnwindCase M exn (.frame fr site :: rest) (.exec fr', rest)
  | passed {fr site rest} : UnwindCase M exn (.frame fr site :: rest) (.raise exn, rest)
  | ext {rest} : UnwindCase M exn (.env .ext :: rest) (.env .ext, rest)
  | terminate {k rest} : k ≠ .ext → UnwindCase M exn (.env k :: rest) (.done false, [])

theorem unwind_cases {exn : Val D.Data} {ks : List (Cont D)} {r : Control D × List (Cont D)}
    (h : M.unwind exn ks = some r) : UnwindCase M exn ks r := by
  cases ks with
  | nil => cases h
  | cons k rest =>
    cases k with
    | frame fr site =>
      simp only [Module.unwind] at h
      split at h
      · rename_i ft c hop hp
        obtain ⟨b, hb, h⟩ := Option.bind_eq_some_iff.mp h
        obtain ⟨fr', hfr', rfl⟩ := Option.map_eq_some_iff.mp h
        exact .caught hop hp hb hfr'
      · cases h
        exact .passed
    | env k =>
      cases k with
      | ext => cases h; exact .ext
      | _ => cases h; exact .terminate (by simp)

/-! ### Positions -/

/-- A running frame stands at a suffix of its block. -/
def Frame.At (M : Module) (fr : Frame D) : Prop :=
  ∃ B, M.block? fr.fn fr.block = some B ∧ ∃ pre, B.insts = pre ++ fr.todo

/-- A waiting frame stands just after its call. -/
def Frame.WaitsAt (M : Module) (fr : Frame D) (site : Instruction) : Prop :=
  ∃ B, M.block? fr.fn fr.block = some B ∧ ∃ pre, B.insts = pre ++ site :: fr.todo

/-- All frames of a state are in place. -/
structure Positioned (M : Module) (s : State D) : Prop where
  control : ∀ fr, s.control = .exec fr → fr.At M
  conts : ∀ fr site, .frame fr site ∈ s.conts → fr.WaitsAt M site

@[simp] theorem Frame.set_fn (fr : Frame D) (id : ℕ) (v : Val D.Data) :
    (fr.set id v).fn = fr.fn := rfl

@[simp] theorem Frame.set_block (fr : Frame D) (id : ℕ) (v : Val D.Data) :
    (fr.set id v).block = fr.block := rfl

@[simp] theorem Frame.set_todo (fr : Frame D) (id : ℕ) (v : Val D.Data) :
    (fr.set id v).todo = fr.todo := rfl

@[simp] theorem Frame.setAll_fn (fr : Frame D) (is : List Instruction) (vs : List (Val D.Data)) :
    (fr.setAll is vs).fn = fr.fn := by
  induction is generalizing fr vs with
  | nil => rfl
  | cons I is ih =>
    cases vs with
    | nil => rfl
    | cons v vs => rw [Frame.setAll, ih, Frame.set_fn]

@[simp] theorem Frame.setAll_block (fr : Frame D) (is : List Instruction) (vs : List (Val D.Data)) :
    (fr.setAll is vs).block = fr.block := by
  induction is generalizing fr vs with
  | nil => rfl
  | cons I is ih =>
    cases vs with
    | nil => rfl
    | cons v vs => rw [Frame.setAll, ih, Frame.set_block]

/-- Past its first instructions a frame still stands at a suffix of its block. -/
theorem Frame.At.advance {fr fr' : Frame D} {pre rest : List Instruction} (h : fr.At M)
    (ht : fr.todo = pre ++ rest) (hfn : fr'.fn = fr.fn) (hb : fr'.block = fr.block)
    (ht' : fr'.todo = rest) : fr'.At M := by
  obtain ⟨B, hB, pre', hpre⟩ := h
  refine ⟨B, by rw [hfn, hb, hB], pre' ++ pre, ?_⟩
  rw [hpre, ht, ht', List.append_assoc]

theorem Frame.At.waits {fr : Frame D} {I : Instruction} {rest : List Instruction} (h : fr.At M)
    (ht : fr.todo = I :: rest) : ({ fr with todo := rest } : Frame D).WaitsAt M I := by
  obtain ⟨B, hB, pre, hpre⟩ := h
  exact ⟨B, hB, pre, by rw [hpre, ht]⟩

theorem Frame.WaitsAt.at {fr : Frame D} {site : Instruction} (h : fr.WaitsAt M site) : fr.At M := by
  obtain ⟨B, hB, pre, hpre⟩ := h
  exact ⟨B, hB, pre ++ [site], by simp [hpre]⟩

theorem block?_id {g b : ℕ} {B : BasicBlock} (h : M.block? g b = some B) : B.id = b := by
  obtain ⟨F, -, hB⟩ := Option.bind_eq_some_iff.mp h
  simpa using List.find?_some hB

/-- A frame after a jump stands at the front of its block. -/
theorem jump_inv {fr fr' : Frame D} {b : ℕ} {pad : Option (Val D.Data)}
    (h : M.jump fr b pad = some fr') :
    ∃ B, M.block? fr'.fn fr'.block = some B ∧ fr'.todo = B.insts ∧ fr'.fn = fr.fn ∧
      fr'.block = b ∧ fr'.locals = fr.locals := by
  obtain ⟨B, hB, rfl⟩ := Option.map_eq_some_iff.mp h
  have hid := block?_id hB
  subst hid
  exact ⟨B, hB, rfl, rfl, rfl, rfl⟩

/-- A new activation stands at the front of the entry block. -/
theorem enter_inv {g : ℕ} {F : Function} {args : List (Val D.Data)} {fr : Frame D}
    (hF : M.function? g = some F) (h : F.enter args = some fr) :
    ∃ E, F.blocks.head? = some E ∧ M.block? fr.fn fr.block = some E ∧ fr.todo = E.insts ∧
      fr.fn = g := by
  obtain ⟨E, hE, rfl⟩ := Option.map_eq_some_iff.mp h
  have hid := (Module.mem_of_function? hF).2
  refine ⟨E, hE, ?_, rfl, hid⟩
  rw [Module.block?, hid, hF, Option.bind_some, Function.block?]
  cases hB : F.blocks with
  | nil => simp [hB] at hE
  | cons B Bs =>
    rw [hB, List.head?_cons, Option.some.injEq] at hE
    subst hE
    simp

/-- What a delivered result leads to: the next instruction of the waiting frame, or the front of a
block of the same function. -/
theorem deliver_inv {fr fr' : Frame D} {site : Instruction} {v : Val D.Data}
    (h : M.deliver fr site v = some fr') :
    (∃ ft mt, site.opcode = .call ft mt ∧ fr' = fr.set site.id v) ∨
      (site.isTerminator = true ∧
        ∃ B, M.block? fr'.fn fr'.block = some B ∧ fr'.todo = B.insts ∧ fr'.fn = fr.fn ∧
          fr'.locals = (fr.set site.id v).locals) := by
  rw [Module.deliver] at h
  split at h
  · rename_i ft mt hop
    exact .inl ⟨ft, mt, hop, (Option.some.inj h).symm⟩
  · rename_i ft hop
    obtain ⟨b, -, hj⟩ := Option.bind_eq_some_iff.mp h
    obtain ⟨B, hB, ht, hfn, -, hl⟩ := jump_inv hj
    exact .inr ⟨by simp [Instruction.isTerminator, hop, Opcode.isTerminator], B, hB, ht, hfn, hl⟩
  · rename_i ft hop
    obtain ⟨b, -, hj⟩ := Option.bind_eq_some_iff.mp h
    obtain ⟨B, hB, ht, hfn, -, hl⟩ := jump_inv hj
    exact .inr ⟨by simp [Instruction.isTerminator, hop, Opcode.isTerminator], B, hB, ht, hfn, hl⟩
  · cases h

theorem Frame.WaitsAt.deliver {fr fr' : Frame D} {site : Instruction} {v : Val D.Data}
    (h : fr.WaitsAt M site) (hd : M.deliver fr site v = some fr') : fr'.At M := by
  rcases deliver_inv hd with ⟨ft, mt, -, rfl⟩ | ⟨-, B, hB, ht, -⟩
  · exact h.at.advance (List.nil_append _).symm rfl rfl rfl
  · exact ⟨B, hB, [], by simp [ht]⟩

theorem positioned_return {s : State D} (hs : Positioned M s) {v : Val D.Data}
    {r : Control D × List (Cont D)} (h : M.returnTo v s.conts = some r) :
    Positioned M { s with control := r.1, conts := r.2 } := by
  have hc := return_cases h
  generalize hks : s.conts = ks at hc
  cases hc with
  | frame hd =>
    refine ⟨fun fr hfr => ?_, fun fr site hmem => hs.conts fr site (by rw [hks]; exact .tail _ hmem)⟩
    cases hfr
    exact (hs.conts _ _ (by rw [hks]; exact .head _)).deliver hd
  | main => exact ⟨fun _ hfr => (nomatch hfr), fun _ _ hmem => (nomatch hmem)⟩
  | env =>
    exact ⟨fun _ hfr => (nomatch hfr), fun fr site hmem => hs.conts fr site (by rw [hks]; exact .tail _ hmem)⟩

theorem positioned_unwind {s : State D} (hs : Positioned M s) {exn : Val D.Data}
    {r : Control D × List (Cont D)} (h : M.unwind exn s.conts = some r) :
    Positioned M { s with control := r.1, conts := r.2 } := by
  have hc := unwind_cases h
  generalize hks : s.conts = ks at hc
  cases hc with
  | caught _ _ _ hj =>
    refine ⟨fun fr hfr => ?_, fun fr site hmem => hs.conts fr site (by rw [hks]; exact .tail _ hmem)⟩
    cases hfr
    obtain ⟨B, hB, ht, -⟩ := jump_inv hj
    exact ⟨B, hB, [], by simp [ht]⟩
  | terminate => exact ⟨fun _ hfr => (nomatch hfr), fun _ _ hmem => (nomatch hmem)⟩
  | _ =>
    exact ⟨fun _ hfr => (nomatch hfr), fun fr site hmem => hs.conts fr site (by rw [hks]; exact .tail _ hmem)⟩

theorem enter_at {g : ℕ} {F : Function} {args : List (Val D.Data)} {fr : Frame D}
    (hF : M.function? g = some F) (h : F.enter args = some fr) : fr.At M := by
  obtain ⟨E, -, hB, ht, -⟩ := enter_inv hF h
  exact ⟨E, hB, [], by simp [ht]⟩

theorem positioned_env {s s' : State D} {k : EnvKind} {a : Act D} (hs : Positioned M s)
    (hk : s.control = .env k) (h : M.envStep s k a = some s') : Positioned M s' := by
  have hidle : ∀ fr, s.control ≠ .exec fr := fun fr h => by rw [hk] at h; cases h
  have henter : ∀ {g F args fr k'}, M.function? g = some F → F.enter args = some fr → ∀ hs',
      Positioned M { s with control := .exec fr, conts := .env k' :: s.conts, handlers := hs' } := by
    intro g F args fr k' hF hfr hs'
    refine ⟨fun fr' hfr' => ?_, fun fr' site hmem => ?_⟩
    · cases hfr'
      exact enter_at hF hfr
    · rcases List.mem_cons.mp hmem with heq | hmem
      · cases heq
      · exact hs.conts fr' site hmem
  cases env_cases h with
  | ret hconts hd =>
    refine ⟨fun fr hfr => ?_, fun fr site hmem => hs.conts fr site (by rw [hconts]; exact .tail _ hmem)⟩
    cases hfr
    exact (hs.conts _ _ (by rw [hconts]; exact .head _)).deliver hd
  | throw => exact ⟨fun _ hfr => (nomatch hfr), hs.conts⟩
  | callback hF hfr => exact henter hF hfr s.handlers
  | write => exact ⟨fun fr hfr => absurd hfr (hidle fr), hs.conts⟩
  | malloc => exact ⟨fun fr hfr => absurd hfr (hidle fr), hs.conts⟩
  | exit => exact ⟨fun _ hfr => (nomatch hfr), fun _ _ hmem => (nomatch hmem)⟩
  | runMain _ hF hfr => exact henter hF hfr s.handlers
  | skipHandler => exact ⟨fun fr hfr => absurd hfr (hidle fr), hs.conts⟩
  | runHandler _ hF hfr => exact henter hF hfr _
  | finish => exact ⟨fun _ hfr => (nomatch hfr), hs.conts⟩
  | abort => exact ⟨fun _ hfr => (nomatch hfr), hs.conts⟩

/-- **A step keeps every frame in place.** -/
theorem step_positioned {s : State D} {a : Act D} {e : Event D} {s' : State D}
    (hs : Positioned M s) (h : M.step s a = some (e, s')) : Positioned M s' := by
  have hmoved : ∀ {fr fr' : Frame D} {pre rest mem hds n}, s.control = .exec fr →
      fr.todo = pre ++ rest → fr'.fn = fr.fn → fr'.block = fr.block → fr'.todo = rest →
      Positioned M ⟨.exec fr', s.conts, mem, hds, n⟩ := by
    intro fr fr' pre rest mem hds n hc ht hfn hb ht'
    refine ⟨fun fr'' hfr => ?_, hs.conts⟩
    cases hfr
    exact (hs.control fr hc).advance ht hfn hb ht'
  cases step_cases h with
  | phis hc ht =>
    exact hmoved hc List.takeWhile_append_dropWhile.symm (by simp) (by simp) rfl
  | value hc ht => exact hmoved hc (ht.trans (List.singleton_append).symm) rfl rfl rfl
  | alloca hc ht => exact hmoved hc (ht.trans (List.singleton_append).symm) rfl rfl rfl
  | memory hc ht => exact hmoved hc (ht.trans (List.singleton_append).symm) rfl rfl rfl
  | register hc ht _ _ _ _ _ _ _ hd =>
    refine ⟨fun fr hfr => ?_, hs.conts⟩
    cases hfr
    exact ((hs.control _ hc).waits ht).deliver hd
  | callOut hc ht =>
    refine ⟨fun _ hfr => (nomatch hfr), fun fr site hmem => ?_⟩
    rcases List.mem_cons.mp hmem with heq | hmem
    · cases heq
      exact (hs.control _ hc).waits ht
    · exact hs.conts fr site hmem
  | callIn hc ht _ _ _ hA hfr =>
    refine ⟨fun fr hfr' => ?_, fun fr site hmem => ?_⟩
    · cases hfr'
      exact enter_at hA hfr
    · rcases List.mem_cons.mp hmem with heq | hmem
      · cases heq
        exact (hs.control _ hc).waits ht
      · exact hs.conts fr site hmem
  | ret _ _ _ _ hr => exact positioned_return hs hr
  | goto _ _ _ _ _ hj =>
    refine ⟨fun fr hfr => ?_, hs.conts⟩
    cases hfr
    obtain ⟨B, hB, hB', -⟩ := jump_inv hj
    exact ⟨B, hB, [], by simp [hB']⟩
  | raise => exact ⟨fun _ hfr => (nomatch hfr), hs.conts⟩
  | unwind _ hr => exact positioned_unwind hs hr
  | env hk he => exact positioned_env hs hk he

/-- What an event that shows instructions says about the state. -/
inductive ExecCase (M : Module) (s : State D) :
    ℕ → ℕ → List Instruction → List (Val D.Data) → Prop where
  | phis {fr I rest vs} : s.control = .exec fr → fr.todo = I :: rest → I.isPhi = true →
      M.phiVals fr (fr.todo.takeWhile Instruction.isPhi) = some vs →
      ExecCase M s fr.fn fr.block (fr.todo.takeWhile Instruction.isPhi) vs
  | inst {fr I rest vs} : s.control = .exec fr → fr.todo = I :: rest → I.isPhi = false →
      M.operandVals fr I = some vs → ExecCase M s fr.fn fr.block [I] vs

theorem isPhi_eq_false {I : Instruction} (hk : I.opcode.kind ≠ .phi) : I.isPhi = false := by
  rw [Instruction.isPhi]
  cases hop : I.opcode <;> simp_all [Opcode.isPhi, Opcode.kind]

theorem exec_cases {s s' : State D} {a : Act D} {fn b : ℕ} {insts : List Instruction}
    {vs : List (Val D.Data)} (h : M.step s a = some (.exec fn b insts vs, s')) :
    ExecCase M s fn b insts vs := by
  generalize he : Event.exec fn b insts vs = e at h
  cases step_cases h with
  | phis hc ht hphi hvs =>
    cases he
    exact .phis hc ht hphi hvs
  | unwind => cases he
  | @env k a s' hk henv => cases a <;> cases he
  | _ hc ht hk hvs =>
    cases he
    exact .inst hc ht (isPhi_eq_false (by rw [hk]; decide)) hvs

/-- The instructions a step executes are the next ones of the running frame. -/
theorem ExecCase.mem_todo {s : State D} {fn b : ℕ} {insts : List Instruction} {vs : List (Val D.Data)}
    (h : ExecCase M s fn b insts vs) :
    ∃ fr, s.control = .exec fr ∧ fr.fn = fn ∧ fr.block = b ∧ ∀ I ∈ insts, I ∈ fr.todo := by
  cases h with
  | phis hc => exact ⟨_, hc, rfl, rfl, fun I hI => (List.takeWhile_sublist _).subset hI⟩
  | inst hc ht =>
    refine ⟨_, hc, rfl, rfl, fun I hI => ?_⟩
    rw [List.mem_singleton.mp hI, ht]
    exact List.mem_cons_self

/-- The instructions a step executes are instructions of the running block. -/
theorem exec_mem {s s' : State D} {a : Act D} {fn b : ℕ} {insts : List Instruction}
    {vs : List (Val D.Data)} (hs : Positioned M s) (h : M.step s a = some (.exec fn b insts vs, s')) :
    ∃ B, M.block? fn b = some B ∧ ∀ I ∈ insts, I ∈ B.insts := by
  obtain ⟨fr, hc, rfl, rfl, hsub⟩ := (exec_cases h).mem_todo
  obtain ⟨B, hB, pre, hpre⟩ := hs.control fr hc
  refine ⟨B, hB, fun I hI => ?_⟩
  rw [hpre]
  exact List.mem_append_right _ (hsub I hI)

/-- A result is delivered within its function. -/
theorem deliver_fn {fr fr' : Frame D} {site : Instruction} {v : Val D.Data}
    (h : M.deliver fr site v = some fr') : fr'.fn = fr.fn := by
  rcases deliver_inv h with ⟨-, -, -, rfl⟩ | ⟨-, -, -, -, hfn, -⟩
  · rfl
  · exact hfn

theorem jump_fn {fr fr' : Frame D} {b : ℕ} {pad : Option (Val D.Data)}
    (h : M.jump fr b pad = some fr') : fr'.fn = fr.fn := by
  obtain ⟨-, -, -, hfn, -⟩ := jump_inv h
  exact hfn

/-- A running frame waits for nothing but its own step. -/
theorem tick_of_exec {s : State D} {a : Act D} {fr : Frame D} {r : Event D × State D}
    (hc : s.control = .exec fr) (h : M.step s a = some r) : a = .tick := by
  cases a with
  | tick => rfl
  | _ => simp [Module.step, hc] at h

/-- The step of a running frame is one of its function and its block. -/
theorem exec_event {s s' : State D} {a : Act D} {e : Event D} {fr : Frame D} (hc : s.control = .exec fr)
    (h : M.step s a = some (e, s')) : ∃ is vs, e = .exec fr.fn fr.block is vs := by
  obtain rfl := tick_of_exec hc h
  simp only [Module.step, hc, Module.execStep] at h
  split at h
  · cases h
  · split at h
    · obtain ⟨vs, -, h⟩ := Option.map_eq_some_iff.mp h
      cases h
      exact ⟨_, _, rfl⟩
    · obtain ⟨vs, -, h⟩ := Option.bind_eq_some_iff.mp h
      obtain ⟨t, -, h⟩ := Option.map_eq_some_iff.mp h
      cases h
      exact ⟨_, _, rfl⟩

/-- A program terminates normally when all registrations have run. -/
theorem handlers_of_done {s s' : State D} {a : Act D} {e : Event D} (h : M.step s a = some (e, s'))
    (hdone : s'.control = .done true) : s'.handlers = [] := by
  cases step_cases h with
  | ret _ _ _ _ hr =>
    have hcase := return_cases hr
    generalize s.conts = ks at hcase
    cases hcase <;> cases hdone
  | unwind _ hr =>
    have hcase := unwind_cases hr
    generalize s.conts = ks at hcase
    cases hcase <;> cases hdone
  | env hk henv =>
    have hidle : s.control ≠ .done true := by
      rw [hk]
      intro hc
      cases hc
    cases env_cases henv with
    | finish hnil => exact hnil
    | write => exact absurd hdone hidle
    | malloc => exact absurd hdone hidle
    | skipHandler => exact absurd hdone hidle
    | _ => cases hdone
  | _ => cases hdone

/-- The action of the step that shows an event. -/
def Event.action : Event D → Act D
  | .exec _ _ _ _ | .unwind _ _ => .tick
  | .act _ a => a
  | .handler _ => .runHandler

theorem step_action (s : State D) (a : Act D) (e : Event D) (s' : State D)
    (h : M.step s a = some (e, s')) : e.action = a := by
  cases step_cases h with
  | env => cases a <;> rfl
  | _ => rfl

theorem initState_positioned (M : Module) (imports : ℕ → Option D.Content) :
    Positioned M (M.initState imports) :=
  ⟨fun _ hfr => (nomatch hfr), fun _ _ hmem => (nomatch hmem)⟩

end SnippetsLlvm.Ir
