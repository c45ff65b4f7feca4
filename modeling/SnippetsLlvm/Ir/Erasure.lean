import SnippetsLlvm.Ir.Provenance
import SnippetsLlvm.Ir.WellFormed

/-!
# Reading the runs of one module as runs of another

A pass that adds code, or moves it to another function, leaves a module whose runs can be read as runs of the
module before: the instructions and the globals that are new are left out, and a function stands for the one
it was made from.  An `Erasure` says what is left out; `Erases` is what two modules must have in common.

Each part of the machine commutes with the reading, from the value of an operand up to a whole step.

* `Erasure.state`, `Erasure.act`, `Erasure.event` — states, actions and events as they are read;
* `Erasable` — the states whose next step is seen: it does not concern what is left out;
* `step_erase` — **the steps from an erasable state are the steps of the other module**, in both directions.
-/

namespace SnippetsLlvm.Ir

open SnippetsLlvm.Library

/-- What is left out when the runs of a module are read as runs of another one. -/
structure Erasure where
  /-- the function a function stands for -/
  fn : ℕ → ℕ
  /-- the functions whose frames are left out -/
  hidesFn : ℕ → Bool
  /-- the instructions of a function that are kept -/
  keeps : ℕ → ℕ → Bool
  /-- the functions whose arguments are left out -/
  dropsArgs : ℕ → Bool
  /-- the globals whose addresses and contents are left out -/
  hides : ℕ → Bool

namespace Erasure

variable (E : Erasure) {D : DataOps}

/-- The hidden globals, as a set. -/
def Secret (g : ℕ) : Prop := E.hides g = true

/-- The instructions kept. -/
def insts (g : ℕ) (is : List Instruction) : List Instruction := is.filter fun I => E.keeps g I.id

/-- A block with the instructions kept. -/
def block (g : ℕ) (B : BasicBlock) : BasicBlock := { B with insts := E.insts g B.insts }

/-- The arguments of a call of the function `g`. -/
def args (g : ℕ) (as : List (Val D.Data)) : List (Val D.Data) := if E.dropsArgs g then [] else as

/-- A frame as it is read. -/
def frame (fr : Frame D) : Frame D where
  fn := E.fn fr.fn
  block := fr.block
  prev := fr.prev
  todo := E.insts fr.fn fr.todo
  locals := fun i => if E.keeps fr.fn i then fr.locals i else none
  args := E.args fr.fn fr.args
  pad := fr.pad

/-- What waits, as it is read. -/
def cont : Cont D → Cont D
  | .frame fr site => .frame (E.frame fr) site
  | .env k => .env k

/-- What runs, as it is read. -/
def control : Control D → Control D
  | .exec fr => .exec (E.frame fr)
  | c => c

/-- The memory objects left out. -/
def hidesObj : Obj → Bool
  | .global g => E.hides g
  | .dyn _ => false

/-- The memory that is kept. -/
def mem (m : Obj → Option D.Content) : Obj → Option D.Content :=
  fun o => if E.hidesObj o then none else m o

/-- The registrations that are kept. -/
def handlers (hs : List ℕ) : List ℕ := hs.filter fun g => !E.hides g

/-- A state as it is read. -/
def state (s : State D) : State D where
  control := E.control s.control
  conts := s.conts.map E.cont
  mem := E.mem s.mem
  handlers := E.handlers s.handlers
  nextDyn := s.nextDyn

/-- An action as it is read, when `main` is the function `m`. -/
def act (m : ℕ) : Act D → Act D
  | .runMain as => .runMain (E.args m as)
  | a => a

/-- An event as it is read, when `main` is the function `m`. -/
def event (m : ℕ) : Event D → Event D
  | .exec g b is vs => .exec (E.fn g) b is vs
  | .unwind g exn => .unwind (g.map E.fn) exn
  | .act g a => .act (g.map E.fn) (E.act m a)
  | .handler g => .handler g

/-- The value of an operand does not depend on what is left out of the frames of the function `g`. -/
def Reads (g : ℕ) : Value → Prop
  | .inst id _ _ => E.keeps g id = true
  | .arg _ _ => E.dropsArgs g = false
  | _ => True

/-- The action of an event is read with the event. -/
theorem event_action (m : ℕ) (e : Event D) : (E.event m e).action = E.act m e.action := by
  cases e <;> rfl

/-- Two functions with the same code, up to what is left out. -/
structure SameCode (F' F : Function) : Prop where
  id : F.id = E.fn F'.id
  blocks : F.blocks = F'.blocks.map (E.block F'.id)
  isAtexit : F'.name = "atexit" ↔ F.name = "atexit"

end Erasure

/-- A list of instructions in which the phi nodes come first. -/
def PhisFirst (is : List Instruction) : Prop :=
  ∀ I ∈ is.dropWhile Instruction.isPhi, I.isPhi = false

/-- Instructions of the function `g` of which those that are kept can be read: the phi nodes come first and
are kept, and nothing that is kept refers to what is left out. -/
structure Erasure.Readable (E : Erasure) (g : ℕ) (is : List Instruction) : Prop where
  phisFirst : PhisFirst is
  phisKept : ∀ I ∈ is, I.isPhi = true → E.keeps g I.id = true
  quiet : ∀ I ∈ is, E.keeps g I.id = true → Quiet E.Secret I
  reads : ∀ I ∈ is, E.keeps g I.id = true → ∀ v ∈ I.operands, E.Reads g v

/-- What the module `M'` and the module `M` its runs are read as have in common. -/
structure Erases (E : Erasure) (M' M : Module) (main' main : Function) : Prop where
  aliases : M'.aliases = M.aliases
  ifuncs : M'.ifuncs = M.ifuncs
  mainFn' : M'.getFunction "main" = some main'
  mainFn : M.getFunction "main" = some main
  mainShown : E.hidesFn main'.id = false
  mainRead : E.fn main'.id = main.id
  /-- what has an address that is kept stands for itself -/
  known : ∀ g, E.hides g = false → E.hidesFn g = false ∧ E.fn g = g ∧ E.dropsArgs g = false
  code : ∀ g, E.hidesFn g = false → Option.Rel E.SameCode (M'.function? g) (M.function? (E.fn g))
  blocks : ∀ g b B, E.hidesFn g = false → M'.block? g b = some B → E.Readable g B.insts
  aliasees : AliasesAvoid E.Secret M'

/-! ### Frames -/

section Frames

variable (E : Erasure) {D : DataOps}

@[simp] theorem Erasure.frame_fn (fr : Frame D) : (E.frame fr).fn = E.fn fr.fn := rfl

theorem Erasure.frame_todo (fr : Frame D) : (E.frame fr).todo = E.insts fr.fn fr.todo := rfl

/-- A kept instruction at the front stays there. -/
theorem Erasure.insts_cons {g : ℕ} {I : Instruction} {rest : List Instruction}
    (hI : E.keeps g I.id = true) : E.insts g (I :: rest) = I :: E.insts g rest :=
  List.filter_cons_of_pos hI

theorem Erasure.frame_set {fr : Frame D} {id : ℕ} (hid : E.keeps fr.fn id = true) (v : Val D.Data) :
    E.frame (fr.set id v) = (E.frame fr).set id v := by
  have hlocals : (fun i => if E.keeps fr.fn i then (if i = id then some v else fr.locals i) else none) =
      fun i => if i = id then some v else if E.keeps fr.fn i then fr.locals i else none := by
    funext i
    by_cases hi : i = id
    · rw [if_pos hi, if_pos hi, hi, if_pos hid]
    · rw [if_neg hi, if_neg hi]
  show Frame.mk _ _ _ _ _ _ _ = Frame.mk _ _ _ _ _ _ _
  rw [Frame.mk.injEq]
  exact ⟨rfl, rfl, rfl, rfl, hlocals, rfl, rfl⟩

/-- A frame that moves past an instruction that is not kept is read as before. -/
theorem Erasure.frame_skip {fr : Frame D} {I : Instruction} {rest : List Instruction}
    (ht : fr.todo = I :: rest) (hI : E.keeps fr.fn I.id = false) (v : Val D.Data) :
    E.frame ({ fr with todo := rest }.set I.id v) = E.frame fr := by
  have hlocals : (fun i => if E.keeps fr.fn i then (if i = I.id then some v else fr.locals i) else none) =
      fun i => if E.keeps fr.fn i then fr.locals i else none := by
    funext i
    by_cases hi : i = I.id
    · rw [hi, hI]
      rfl
    · rw [if_neg hi]
  have htodo : E.insts fr.fn rest = E.insts fr.fn fr.todo := by
    rw [ht]
    exact (List.filter_cons_of_neg (by simp [hI])).symm
  show Frame.mk _ _ _ _ _ _ _ = Frame.mk _ _ _ _ _ _ _
  rw [Frame.mk.injEq]
  exact ⟨rfl, rfl, rfl, htodo, hlocals, rfl, rfl⟩

theorem Erasure.frame_setAll {fr : Frame D} {is : List Instruction} {vs : List (Val D.Data)}
    (his : ∀ I ∈ is, E.keeps fr.fn I.id = true) :
    E.frame (fr.setAll is vs) = (E.frame fr).setAll is vs := by
  induction is generalizing fr vs with
  | nil => rfl
  | cons I is ih =>
    cases vs with
    | nil => rfl
    | cons v vs =>
      rw [Frame.setAll, Frame.setAll, ← E.frame_set (his I List.mem_cons_self)]
      exact ih fun J hJ => his J (List.mem_cons_of_mem _ hJ)

/-- In a list whose phi nodes come first, leaving out other instructions leaves the group of phi nodes. -/
theorem PhisFirst.filter {is : List Instruction} {p : Instruction → Bool} (h : PhisFirst is)
    (hp : ∀ I ∈ is, I.isPhi = true → p I = true) :
    (is.filter p).takeWhile Instruction.isPhi = is.takeWhile Instruction.isPhi ∧
      (is.filter p).dropWhile Instruction.isPhi = (is.dropWhile Instruction.isPhi).filter p := by
  induction is with
  | nil => exact ⟨rfl, rfl⟩
  | cons I is ih =>
    cases hI : I.isPhi with
    | true =>
      have hrest : PhisFirst is := by
        intro J hJ
        refine h J ?_
        rwa [List.dropWhile_cons_of_pos hI]
      obtain ⟨h₁, h₂⟩ := ih hrest fun J hJ => hp J (List.mem_cons_of_mem _ hJ)
      rw [List.filter_cons_of_pos (hp I List.mem_cons_self hI), List.takeWhile_cons_of_pos hI,
        List.dropWhile_cons_of_pos hI, List.takeWhile_cons_of_pos hI, List.dropWhile_cons_of_pos hI,
        h₁, h₂]
      exact ⟨rfl, rfl⟩
    | false =>
      have hnone : ∀ J ∈ (I :: is).filter p, J.isPhi = false := by
        intro J hJ
        refine h J ?_
        rw [List.dropWhile_cons_of_neg (by simp [hI])]
        exact List.mem_of_mem_filter hJ
      have hcons : (I :: is).takeWhile Instruction.isPhi = [] ∧
          (I :: is).dropWhile Instruction.isPhi = I :: is :=
        ⟨List.takeWhile_cons_of_neg (by simp [hI]), List.dropWhile_cons_of_neg (by simp [hI])⟩
      rw [hcons.1, hcons.2]
      cases hfil : (I :: is).filter p with
      | nil => exact ⟨rfl, rfl⟩
      | cons J js =>
        rw [hfil] at hnone
        have hJ := hnone J List.mem_cons_self
        exact ⟨List.takeWhile_cons_of_neg (by simp [hJ]), List.dropWhile_cons_of_neg (by simp [hJ])⟩

theorem phisFirst_of_wellFormed {B : BasicBlock} (hB : B.WellFormed) : PhisFirst B.insts := by
  have hsplit := List.takeWhile_append_dropWhile (p := Instruction.isPhi) (l := B.insts)
  intro I hI
  cases hd : B.insts.dropWhile Instruction.isPhi with
  | nil =>
    rw [hd] at hI
    cases hI
  | cons J js =>
    have hJ : J.isPhi = false := by
      have h := List.head_dropWhile_not Instruction.isPhi (l := B.insts) (by rw [hd]; simp)
      simpa [hd] using h
    rw [hd] at hI hsplit
    rcases List.mem_cons.mp hI with rfl | hI
    · exact hJ
    · obtain ⟨l₁, l₂, rfl⟩ := List.append_of_mem hI
      by_contra hphi
      have h := hB.phisFirst (B.insts.takeWhile Instruction.isPhi ++ J :: l₁) I l₂
        (by rw [List.append_assoc, List.cons_append, hsplit]) (by simpa using hphi) J (by simp)
      rw [hJ] at h
      cases h

/-- A suffix of a list whose phi nodes come first is such a list. -/
theorem PhisFirst.suffix {pre is : List Instruction} (h : PhisFirst (pre ++ is)) : PhisFirst is := by
  induction pre with
  | nil => exact h
  | cons I pre ih =>
    cases hI : I.isPhi with
    | true =>
      refine ih fun J hJ => h J ?_
      rwa [List.cons_append, List.dropWhile_cons_of_pos hI]
    | false =>
      intro J hJ
      refine h J ?_
      rw [List.cons_append, List.dropWhile_cons_of_neg (by simp [hI])]
      exact List.mem_cons_of_mem _ (List.mem_append_right _ ((List.dropWhile_sublist _).subset hJ))

end Frames

section SameCode

variable {E : Erasure} {D : DataOps} {F' F : Function} (hsame : E.SameCode F' F)
include hsame

/-- Entering a function reads as entering the one it stands for. -/
theorem Erasure.SameCode.enter (as : List (Val D.Data)) :
    F.enter (E.args F'.id as) = (F'.enter as).map E.frame := by
  rw [Function.enter, Function.enter, hsame.blocks, List.head?_map, Option.map_map, Option.map_map,
    hsame.id]
  refine congrFun (congrArg Option.map (funext fun B => ?_)) _
  simp only [Function.comp_apply, Erasure.frame, Erasure.block, ite_self]

theorem Erasure.SameCode.isDeclaration : F.isDeclaration = F'.isDeclaration := by
  rw [Function.isDeclaration, Function.isDeclaration, hsame.blocks, List.isEmpty_map]

end SameCode

/-! ### Lookups -/

namespace Erases

variable {E : Erasure} {M' M : Module} {main' main : Function} (hE : Erases E M' M main' main)
include hE

theorem constVal (D : DataOps) (c : Constant) : M.constVal D c = M'.constVal D c := by
  have hresolve : ∀ n c, M.resolve n c = M'.resolve n c := by
    intro n
    induction n with
    | zero => intro c; rfl
    | succ n ih =>
      intro c
      cases c with
      | global a k ty =>
        rcases k with _ | _ | _ | _
        · rfl
        · rfl
        · rw [Module.resolve, Module.resolve, hE.aliases]
          cases M.aliases.find? (·.id = a) with
          | none => rfl
          | some A => exact ih A.aliasee
        · rfl
      | _ => rfl
  simp only [Module.constVal, hresolve, hE.aliases]

variable {D : DataOps}

theorem operandVal {fr : Frame D} {v : Value} (hv : E.Reads fr.fn v) :
    M.operandVal (E.frame fr) v = M'.operandVal fr v := by
  cases v with
  | const c => exact hE.constVal D c
  | inst id op ty => exact if_pos hv
  | arg i ty =>
    have hargs : E.args fr.fn fr.args = fr.args := by
      rw [Erasure.args, show E.dropsArgs fr.fn = false from hv]
      rfl
    simp only [Module.operandVal, Erasure.frame, hargs]
  | _ => rfl

theorem operandVals {fr : Frame D} {I : Instruction} (hI : ∀ v ∈ I.operands, E.Reads fr.fn v) :
    M.operandVals (E.frame fr) I = M'.operandVals fr I := by
  rw [Module.operandVals, Module.operandVals]
  generalize I.operands = vs at hI
  induction vs with
  | nil => rfl
  | cons v vs ih =>
    rw [List.mapM_cons, List.mapM_cons, hE.operandVal (hI v List.mem_cons_self),
      ih fun u hu => hI u (List.mem_cons_of_mem _ hu)]

theorem phiVals {fr : Frame D} {phis : List Instruction}
    (hphis : ∀ I ∈ phis, ∀ v ∈ I.operands, E.Reads fr.fn v) :
    M.phiVals (E.frame fr) phis = M'.phiVals fr phis := by
  rw [Module.phiVals, Module.phiVals]
  induction phis with
  | nil => rfl
  | cons I phis ih =>
    rw [List.mapM_cons, List.mapM_cons, ih fun J hJ => hphis J (List.mem_cons_of_mem _ hJ)]
    have hprev : (E.frame fr).prev = fr.prev := rfl
    rw [hprev]
    congr 1
    cases hop : I.opcode with
    | phi incoming =>
      cases fr.prev with
      | none => rfl
      | some b =>
        dsimp only
        cases hp : (I.operands.zip incoming).find? (·.2 = b) with
        | none => rfl
        | some p =>
          have hmem := (List.of_mem_zip (List.mem_of_find?_eq_some hp)).1
          exact hE.operandVal (hphis I List.mem_cons_self p.1 hmem)
    | _ => rfl

/-- The function a shown function stands for. -/
theorem function? {g : ℕ} (hg : E.hidesFn g = false) :
    (M'.function? g = none ∧ M.function? (E.fn g) = none) ∨
      ∃ F' F, M'.function? g = some F' ∧ M.function? (E.fn g) = some F ∧ E.SameCode F' F := by
  have h := hE.code g hg
  generalize M'.function? g = o' at h
  generalize M.function? (E.fn g) = o at h
  cases h with
  | none => exact .inl ⟨rfl, rfl⟩
  | some h => exact .inr ⟨_, _, rfl, rfl, h⟩

theorem block? {g : ℕ} (hg : E.hidesFn g = false) (b : ℕ) :
    M.block? (E.fn g) b = (M'.block? g b).map (E.block g) := by
  rw [Module.block?, Module.block?]
  rcases hE.function? hg with ⟨h', h⟩ | ⟨F', F, h', h, hsame⟩
  · rw [h', h]
    rfl
  · have hid := (Module.mem_of_function? h').2
    rw [h', h, Option.bind_some, Option.bind_some, Function.block?, Function.block?, hsame.blocks, hid,
      List.find?_map]
    rfl

theorem jump {fr : Frame D} (hfr : E.hidesFn fr.fn = false) (b : ℕ) (pad : Option (Val D.Data)) :
    M.jump (E.frame fr) b pad = (M'.jump fr b pad).map E.frame := by
  rw [Module.jump, Module.jump, Erasure.frame_fn, hE.block? hfr, Option.map_map, Option.map_map]
  rfl

theorem deliver {fr : Frame D} {site : Instruction} (hfr : E.hidesFn fr.fn = false)
    (hsite : E.keeps fr.fn site.id = true) (v : Val D.Data) :
    M.deliver (E.frame fr) site v = (M'.deliver fr site v).map E.frame := by
  have hjump : ∀ o : Option ℕ, (o.bind fun b => M.jump ((E.frame fr).set site.id v) b (E.frame fr).pad) =
      (o.bind fun b => M'.jump (fr.set site.id v) b fr.pad).map E.frame := by
    intro o
    cases o with
    | none => rfl
    | some b =>
      rw [Option.bind_some, Option.bind_some, ← E.frame_set hsite]
      have hset : E.hidesFn (fr.set site.id v).fn = false := hfr
      exact hE.jump hset b fr.pad
  rw [Module.deliver, Module.deliver]
  split
  · rw [Option.map_some, E.frame_set hsite]
  · exact hjump _
  · exact hjump _
  · rfl

end Erases

/-! ### States -/

section States

variable (E : Erasure) {D : DataOps}

theorem Erasure.handlers_cons {g : ℕ} (hg : E.hides g = false) (hs : List ℕ) :
    E.handlers (g :: hs) = g :: E.handlers hs :=
  List.filter_cons_of_pos (by simp [hg])

theorem Erasure.handlers_cons_hidden {g : ℕ} (hg : E.hides g = true) (hs : List ℕ) :
    E.handlers (g :: hs) = E.handlers hs :=
  List.filter_cons_of_neg (by simp [hg])

theorem Erasure.mem_apply {o : Obj} (ho : E.hidesObj o = false) (m : Obj → Option D.Content) :
    E.mem m o = m o := by
  rw [Erasure.mem, if_neg (by simp [ho])]

/-- A write to an object that is kept is seen. -/
theorem Erasure.mem_write {o : Obj} (ho : E.hidesObj o = false) (c : D.Content)
    (m : Obj → Option D.Content) :
    E.mem (fun o' => if o' = o then some c else m o') = fun o' => if o' = o then some c else E.mem m o' := by
  funext o'
  by_cases ho' : o' = o
  · rw [if_pos ho', ho', E.mem_apply ho, if_pos rfl]
  · rw [if_neg ho', Erasure.mem, Erasure.mem, if_neg ho']

/-- An effect of the environment is seen on the objects that are kept. -/
theorem Erasure.mem_overwrite (eff : Obj → Option (Option D.Content)) (m : Obj → Option D.Content) :
    E.mem (overwrite m eff) = overwrite (E.mem m) eff := by
  funext o
  rw [Erasure.mem, overwrite, overwrite, Erasure.mem]
  split <;> rfl

theorem Erasure.hidesObj_iff (o : Obj) : E.hidesObj o = true ↔ Hidden E.Secret o := by
  cases o with
  | global g => rfl
  | dyn n => simp [Erasure.hidesObj, Hidden]

/-- Memories that agree on the objects that are kept are read alike. -/
theorem Erasure.mem_congr {m m' : Obj → Option D.Content} (h : ∀ o, ¬ Hidden E.Secret o → m' o = m o) :
    E.mem m' = E.mem m := by
  funext o
  rw [Erasure.mem, Erasure.mem]
  split
  · rfl
  · rename_i ho
    refine h o fun hidden => ho ?_
    rw [E.hidesObj_iff]
    exact hidden

theorem Erasure.state_congr {s s' : State D} (hcontrol : E.control s'.control = E.control s.control)
    (hconts : s'.conts = s.conts) (hmem : E.mem s'.mem = E.mem s.mem)
    (hhandlers : E.handlers s'.handlers = E.handlers s.handlers) (hdyn : s'.nextDyn = s.nextDyn) :
    E.state s' = E.state s := by
  rw [Erasure.state, Erasure.state, hcontrol, hconts, hmem, hhandlers, hdyn]

theorem Erasure.callerOf (ks : List (Cont D)) :
    callerOf (ks.map E.cont) = (callerOf ks).map E.fn := by
  cases ks with
  | nil => rfl
  | cons k ks => cases k <;> rfl

end States

/-- The states from which the next step is seen. -/
structure Erasable (E : Erasure) (M' M : Module) {D : DataSem} (s : State D.toDataOps) : Prop where
  positioned : Positioned M' s
  clean : s.Clean E.Secret
  control : ∀ fr, s.control = .exec fr → E.hidesFn fr.fn = false ∧
    ∀ I rest, fr.todo = I :: rest → E.keeps fr.fn I.id = true
  conts : ∀ fr site, .frame fr site ∈ s.conts → E.hidesFn fr.fn = false ∧ E.keeps fr.fn site.id = true
  /-- an exception on its way into a call in a function meets the same personality -/
  unwinds : ∀ exn fr site rest ft, s.control = .raise exn → s.conts = .frame fr site :: rest →
    site.opcode = .invoke ft → ((M'.function? fr.fn).bind Function.personality).isSome =
      ((M.function? (E.fn fr.fn)).bind Function.personality).isSome

/-- At normal termination the next registration is one that is kept. -/
def Erasure.NextShown (E : Erasure) {D : DataOps} (s : State D) : Prop :=
  ∀ g rest, s.handlers = g :: rest → E.hides g = false

/-- Whether an action of the environment looks at the registrations. -/
def Act.looksAtHandlers {D : DataOps} : Act D → Bool
  | .runHandler | .finish => true
  | _ => false

namespace Erases

variable {E : Erasure} {M' M : Module} {main' main : Function} (hE : Erases E M' M main' main)
  {D : DataSem}
include hE

/-! ### Returns and exceptions -/

theorem returnTo {v : Val D.Data} {ks : List (Cont D.toDataOps)}
    (hks : ∀ fr site, .frame fr site ∈ ks → E.hidesFn fr.fn = false ∧ E.keeps fr.fn site.id = true) :
    M.returnTo v (ks.map E.cont) =
      (M'.returnTo v ks).map fun r => (E.control r.1, r.2.map E.cont) := by
  cases ks with
  | nil => rfl
  | cons k ks =>
    cases k with
    | frame fr site =>
      obtain ⟨hfr, hsite⟩ := hks fr site List.mem_cons_self
      rw [List.map_cons, Module.returnTo, Erasure.cont, Module.returnTo, hE.deliver hfr hsite,
        Option.map_map, Option.map_map]
      rfl
    | env k => cases k <;> rfl

theorem unwind {exn : Val D.Data} {ks : List (Cont D.toDataOps)}
    (hks : ∀ fr site, .frame fr site ∈ ks → E.hidesFn fr.fn = false ∧ E.keeps fr.fn site.id = true)
    (hpers : ∀ fr site rest ft, ks = .frame fr site :: rest → site.opcode = .invoke ft →
      ((M'.function? fr.fn).bind Function.personality).isSome =
        ((M.function? (E.fn fr.fn)).bind Function.personality).isSome) :
    M.unwind exn (ks.map E.cont) =
      (M'.unwind exn ks).map fun r => (E.control r.1, r.2.map E.cont) := by
  cases ks with
  | nil => rfl
  | cons k ks =>
    cases k with
    | frame fr site =>
      obtain ⟨hfr, hsite⟩ := hks fr site List.mem_cons_self
      rw [List.map_cons, Module.unwind, Erasure.cont, Module.unwind]
      cases hop : site.opcode with
      | invoke ft =>
        have h := hpers fr site ks ft rfl hop
        rw [Erasure.frame_fn]
        generalize (M'.function? fr.fn).bind Function.personality = p' at h ⊢
        generalize (M.function? (E.fn fr.fn)).bind Function.personality = p at h ⊢
        cases p' with
        | none =>
          cases p with
          | none => rfl
          | some _ => cases h
        | some _ =>
          cases p with
          | none => cases h
          | some _ =>
            dsimp only
            cases site.blockOperands[1]? with
            | none => rfl
            | some b =>
              rw [Option.bind_some, Option.bind_some, hE.jump hfr, Option.map_map, Option.map_map]
              rfl
      | _ => rfl
    | env k => cases k <;> rfl

/-! ### Calls -/

theorem callStep {s : State D.toDataOps} {fr : Frame D.toDataOps} {I : Instruction}
    {vs : List (Val D.Data)} (hfr : E.hidesFn fr.fn = false) (hI : E.keeps fr.fn I.id = true)
    (hvs : ∀ v ∈ vs, v.Avoids E.Secret) :
    M.callStep (E.state s) (E.frame fr) I vs = (M'.callStep s fr I vs).map E.state := by
  rw [Module.callStep, Module.callStep]
  have hshown : ∀ g off, (.ptr (.global g) off : Val D.Data) ∈ vs → E.hides g = false := by
    intro g off hmem
    by_contra hg
    exact hvs _ hmem g (by simpa [Erasure.Secret] using hg) rfl
  split
  · rename_i g hg
    have hgs := hshown g 0 (List.mem_of_getLast? hg)
    obtain ⟨hgf, hfix, hdrop⟩ := hE.known g hgs
    rcases hE.function? hgf with ⟨h', h⟩ | ⟨F', F, h', h, hsame⟩
    · rw [hfix] at h
      rw [h', h, hE.ifuncs]
      dsimp only
      split <;> rfl
    · rw [hfix] at h
      have hid := (Module.mem_of_function? h').2
      rw [h', h]
      dsimp only
      rw [hsame.isDeclaration]
      by_cases hdecl : F'.isDeclaration = true
      · rw [if_pos hdecl, if_pos hdecl]
        by_cases hname : F'.name = "atexit"
        · rw [if_pos hname, if_pos (hsame.isAtexit.mp hname)]
          split
          · rename_i a hargs
            have hmem : (.ptr (.global a) 0 : Val D.Data) ∈ vs :=
              mem_callArgVals (by rw [hargs]; exact List.mem_cons_self)
            rw [hE.deliver hfr hI, Option.map_map, Option.map_map]
            refine congrFun (congrArg Option.map (funext fun fr' => ?_)) _
            simp only [Function.comp_apply, Erasure.state, E.handlers_cons (hshown a 0 hmem)]
            rfl
          · rfl
        · rw [if_neg hname, if_neg fun h => hname (hsame.isAtexit.mpr h)]
          rfl
      · rw [if_neg hdecl, if_neg hdecl]
        have henter := hsame.enter (callArgVals vs)
        rw [Erasure.args, hid, hdrop] at henter
        rw [if_neg (by simp)] at henter
        rw [henter, Option.map_map, Option.map_map]
        rfl
  · rfl
  · rfl
  · rfl
  · rfl

/-! ### The steps of the program -/

theorem instStep {s : State D.toDataOps} {fr : Frame D.toDataOps} {I : Instruction}
    {vs : List (Val D.Data)} (hfr : E.hidesFn fr.fn = false) (hI : E.keeps fr.fn I.id = true)
    (hvs : ∀ v ∈ vs, v.Avoids E.Secret)
    (hks : ∀ fr site, .frame fr site ∈ s.conts →
      E.hidesFn fr.fn = false ∧ E.keeps fr.fn site.id = true) :
    M.instStep (E.state s) (E.frame fr) I vs = (M'.instStep s fr I vs).map E.state := by
  have hset : ∀ v : Val D.Data, (E.frame fr).set I.id v = E.frame (fr.set I.id v) := fun v =>
    (E.frame_set hI v).symm
  rw [Module.instStep, Module.instStep]
  cases hk : I.opcode.kind with
  | phi => rfl
  | value =>
    dsimp only
    rw [Option.map_map]
    refine congrFun (congrArg Option.map (funext fun v => ?_)) _
    rw [Function.comp_apply, hset]
    rfl
  | alloca =>
    dsimp only
    rw [Option.map_map]
    refine congrFun (congrArg Option.map (funext fun c => ?_)) _
    rw [Function.comp_apply, hset]
    simp only [Erasure.state, E.mem_write (o := .dyn s.nextDyn) rfl]
    rfl
  | memory =>
    dsimp only
    split
    · rename_i o off hptr
      have hclean : ¬ Hidden E.Secret o := (hvs _ (List.mem_of_getElem? hptr)).not_hidden
      have ho : E.hidesObj o = false := by
        by_contra h
        exact hclean ((E.hidesObj_iff o).mp (by simpa using h))
      have hmem : (E.state s).mem o = s.mem o := E.mem_apply ho s.mem
      rw [hmem]
      cases s.mem o with
      | none => rfl
      | some c =>
        rw [Option.bind_some, Option.bind_some, Option.map_map]
        refine congrFun (congrArg Option.map (funext fun r => ?_)) _
        rw [Function.comp_apply, hset]
        simp only [Erasure.state, E.mem_write ho]
        rfl
    · rfl
  | call => exact hE.callStep hfr hI hvs
  | ret =>
    dsimp only
    have hret := hE.returnTo (v := vs.head?.getD .void) hks
    have hconts : (E.state s).conts = s.conts.map E.cont := rfl
    rw [hconts, hret, Option.map_map, Option.map_map]
    rfl
  | transfer =>
    dsimp only
    have hpad : (E.frame fr).pad = fr.pad := rfl
    rw [hpad]
    split
    · rw [hE.jump hfr, Option.map_map, Option.map_map]
      rfl
    · rfl
    · rfl

/-- The first instruction of a running frame, or the whole group of phi nodes, is read as it is. -/
theorem execStep {s : State D.toDataOps} {fr : Frame D.toDataOps} (hs : Erasable E M' M s)
    (hc : s.control = .exec fr) :
    M.execStep (E.state s) (E.frame fr) =
      (M'.execStep s fr).map fun r => (E.event main'.id r.1, E.state r.2) := by
  obtain ⟨hfr, hfront⟩ := hs.control fr hc
  obtain ⟨B, hB, pre, hpre⟩ := hs.positioned.control fr hc
  have hread := hE.blocks _ _ B hfr hB
  have hin : ∀ I ∈ fr.todo, I ∈ B.insts := by
    intro I hI
    rw [hpre]
    exact List.mem_append_right _ hI
  have hphis : PhisFirst fr.todo := (hpre ▸ hread.phisFirst).suffix
  rw [Module.execStep, Module.execStep, Erasure.frame_todo]
  cases ht : fr.todo with
  | nil => rfl
  | cons I rest =>
    have hI := hfront I rest ht
    obtain ⟨htake, hdrop⟩ := hphis.filter (p := fun I => E.keeps fr.fn I.id) fun J hJ =>
      hread.phisKept J (hin J hJ)
    rw [ht] at htake hdrop
    have hcons : E.insts fr.fn (I :: rest) = I :: E.insts fr.fn rest := E.insts_cons hI
    rw [Erasure.insts] at hcons
    rw [Erasure.insts, hcons]
    dsimp only
    rw [← hcons, htake, hdrop]
    by_cases hphi : I.isPhi = true
    · rw [if_pos hphi, if_pos hphi]
      have hgroup : ∀ J ∈ (I :: rest).takeWhile Instruction.isPhi, E.keeps fr.fn J.id = true ∧
          ∀ v ∈ J.operands, E.Reads fr.fn v := by
        intro J hJ
        have hmem : J ∈ fr.todo := ht ▸ (List.takeWhile_sublist _).subset hJ
        have hkeep := hread.phisKept J (hin J hmem) (List.all_eq_true.mp List.all_takeWhile J hJ)
        exact ⟨hkeep, hread.reads J (hin J hmem) hkeep⟩
      rw [hE.phiVals fun J hJ => (hgroup J hJ).2, Option.map_map]
      refine congrFun (congrArg Option.map (funext fun vs => ?_)) _
      rw [Function.comp_apply, ← E.frame_setAll fun J hJ => (hgroup J hJ).1]
      simp only [Erasure.event, Erasure.state, Erasure.control, Erasure.frame, Frame.setAll_fn]
      rfl
    · rw [if_neg hphi, if_neg hphi]
      have hmem : I ∈ B.insts := hin I (ht ▸ List.mem_cons_self)
      have hq := hread.quiet I hmem hI
      have hreads := hread.reads I hmem hI
      have hfrClean : fr.Clean E.Secret := by
        have hcl := hs.clean.control
        rwa [hc] at hcl
      rw [hE.operandVals hreads]
      cases hvs : M'.operandVals fr I with
      | none => rfl
      | some vs =>
        have havoid := operandVals_avoid hE.aliasees hfrClean hq hvs
        have hframe : E.hidesFn ({ fr with todo := rest } : Frame D.toDataOps).fn = false := hfr
        have hstep := hE.instStep hframe hI havoid hs.conts
        rw [Option.bind_some, Option.bind_some]
        refine (congrArg (Option.map _) hstep).trans ?_
        rw [Option.map_map, Option.map_map]
        rfl

/-! ### The steps of the environment -/

theorem enterFrom {s : State D.toDataOps} {k : EnvKind} {g : ℕ} {as : List (Val D.Data)}
    (hg : E.hidesFn g = false) :
    M.enterFrom (E.state s) k (E.fn g) (E.args g as) = (M'.enterFrom s k g as).map E.state := by
  rw [Module.enterFrom, Module.enterFrom]
  rcases hE.function? hg with ⟨h', h⟩ | ⟨F', F, h', h, hsame⟩
  · rw [h', h]
    rfl
  · have hid := (Module.mem_of_function? h').2
    rw [h', h, Option.bind_some, Option.bind_some, ← hid, hsame.enter, Option.map_map, Option.map_map]
    rfl

/-- A function whose address is kept is entered with its arguments. -/
theorem enterFrom_known {s : State D.toDataOps} {k : EnvKind} {g : ℕ} {as : List (Val D.Data)}
    (hg : E.hides g = false) :
    M.enterFrom (E.state s) k g as = (M'.enterFrom s k g as).map E.state := by
  obtain ⟨hgf, hfix, hdrop⟩ := hE.known g hg
  have h : M.enterFrom (E.state s) k (E.fn g) (E.args g as) = _ := hE.enterFrom hgf
  rwa [hfix, Erasure.args, hdrop, if_neg (by simp)] at h

theorem startHandler {s : State D.toDataOps} {g : ℕ} {rest : List ℕ} (hs : s.handlers = g :: rest)
    (hg : E.hides g = false) :
    M.startHandler (E.state s) = (M'.startHandler s).map E.state := by
  obtain ⟨hgf, hfix, -⟩ := hE.known g hg
  have hhs : (E.state s).handlers = g :: E.handlers rest := by
    rw [Erasure.state, hs, E.handlers_cons hg]
  rw [Module.startHandler, Module.startHandler, hhs, hs]
  dsimp only
  rcases hE.function? hgf with ⟨h', h⟩ | ⟨F', F, h', h, hsame⟩
  · rw [hfix] at h
    rw [h', h]
    rfl
  · rw [hfix] at h
    rw [h', h, Option.bind_some, Option.bind_some, hsame.isDeclaration]
    split
    · rfl
    · exact hE.enterFrom_known (s := { s with handlers := rest }) hg

/-- The environment can do the same in both modules, and with the same effect. -/
theorem envStep {s : State D.toDataOps} {k : EnvKind} {a : Act D.toDataOps} (hs : Erasable E M' M s)
    (ha : Outside E.Secret a) (hnext : k = .exiting → a.looksAtHandlers = true → E.NextShown s) :
    M.envStep (E.state s) k (E.act main'.id a) = (M'.envStep s k a).map E.state := by
  have hconts : (E.state s).conts = s.conts.map E.cont := rfl
  cases a with
  | tick => rfl
  | ret v =>
    simp only [Erasure.act, Module.envStep, hconts]
    cases k with
    | ext =>
      have hks := hs.conts
      cases hc : s.conts with
      | nil => rfl
      | cons c rest =>
        rw [hc] at hks
        cases c with
        | frame fr site =>
          obtain ⟨hfr, hsite⟩ := hks fr site List.mem_cons_self
          rw [List.map_cons, Erasure.cont]
          dsimp only
          rw [hE.deliver hfr hsite, Option.map_map, Option.map_map]
          rfl
        | env k => rfl
    | _ => rfl
  | throw exn => cases k <;> rfl
  | callback g as =>
    have hg : E.hides g = false := by simpa [Erasure.Secret] using ha.1
    exact hE.enterFrom_known hg
  | write eff =>
    have hmem := E.mem_overwrite eff s.mem
    show some { E.state s with mem := overwrite (E.mem s.mem) eff } = _
    rw [← hmem]
    rfl
  | malloc c =>
    have hmem : E.mem (fun o => if o = .dyn s.nextDyn then some c else s.mem o) = _ :=
      E.mem_write rfl c s.mem
    show some { E.state s with mem := fun o => if o = Obj.dyn s.nextDyn then some c else E.mem s.mem o,
                               nextDyn := s.nextDyn + 1 } = _
    rw [← hmem]
    rfl
  | exit => cases k <;> rfl
  | runMain as =>
    simp only [Erasure.act, Module.envStep, hE.mainFn, hE.mainFn']
    cases k with
    | crt =>
      have h : M.enterFrom (E.state s) .crtMain (E.fn main'.id) (E.args main'.id as) = _ :=
        hE.enterFrom hE.mainShown
      rw [hE.mainRead] at h
      exact h
    | _ => rfl
  | runHandler =>
    simp only [Erasure.act, Module.envStep]
    cases k with
    | exiting =>
      cases hh : s.handlers with
      | nil =>
        have hnil : (E.state s).handlers = [] := by
          show E.handlers s.handlers = []
          rw [hh]
          rfl
        simp only [Module.startHandler, hh, hnil]
        rfl
      | cons g rest => exact hE.startHandler hh (hnext rfl rfl g rest hh)
    | _ => rfl
  | finish =>
    simp only [Erasure.act, Module.envStep]
    cases k with
    | exiting =>
      have hkept := hnext rfl rfl
      have hhs : (E.state s).handlers = E.handlers s.handlers := rfl
      rw [hhs]
      cases hh : s.handlers with
      | nil => rfl
      | cons g rest => rw [E.handlers_cons (hkept g rest hh)]; rfl
    | _ => rfl
  | abort => rfl

omit hE in
theorem envEvent {s : State D.toDataOps} {a : Act D.toDataOps}
    (hnext : a = .runHandler → E.NextShown s) :
    Ir.envEvent (E.state s) (E.act main'.id a) = E.event main'.id (Ir.envEvent s a) := by
  have hcaller : callerOf (E.state s).conts = (callerOf s.conts).map E.fn := E.callerOf s.conts
  cases a with
  | runHandler =>
    have hhs : (E.state s).handlers = E.handlers s.handlers := rfl
    cases hh : s.handlers with
    | nil =>
      simp only [Erasure.act, Ir.envEvent, Erasure.event, hhs, hh]
      rfl
    | cons g rest =>
      simp only [Erasure.act, Ir.envEvent, Erasure.event, hhs, hh, E.handlers_cons (hnext rfl g rest hh)]
      rfl
  | _ => simp only [Erasure.act, Ir.envEvent, Erasure.event, hcaller]

/-- **The steps from an erasable state are the steps of the other module.** -/
theorem step {s : State D.toDataOps} {a : Act D.toDataOps} (hs : Erasable E M' M s)
    (ha : Outside E.Secret a)
    (hnext : s.control = .env .exiting → a.looksAtHandlers = true → E.NextShown s) :
    M.step (E.state s) (E.act main'.id a) =
      (M'.step s a).map fun r => (E.event main'.id r.1, E.state r.2) := by
  have hcontrol : (E.state s).control = E.control s.control := rfl
  cases hc : s.control with
  | exec fr =>
    rw [hc] at hcontrol
    cases a with
    | tick =>
      simp only [Module.step, hcontrol, hc]
      exact hE.execStep hs hc
    | _ => simp only [Module.step, hcontrol, hc]; rfl
  | env k =>
    rw [hc] at hcontrol
    simp only [Module.step, hcontrol, hc, Erasure.control]
    rw [hE.envStep hs ha fun hk => hnext (hk ▸ hc), Option.map_map, Option.map_map]
    cases hstep : M'.envStep s k a with
    | none => rfl
    | some s' =>
      have hhandler : a = .runHandler → E.NextShown s := by
        rintro rfl
        cases env_cases hstep with
        | skipHandler => exact hnext hc rfl
        | runHandler => exact hnext hc rfl
      have hev : Ir.envEvent (E.state s) (E.act main'.id a) = E.event main'.id (Ir.envEvent s a) :=
        envEvent hhandler
      rw [Option.map_some, Option.map_some, Function.comp_apply, Function.comp_apply, hev]
  | raise exn =>
    cases a with
    | tick =>
      have hun : M.unwind exn (s.conts.map E.cont) = _ :=
        hE.unwind hs.conts fun fr site rest ft h hop => hs.unwinds exn fr site rest ft hc h hop
      have hcaller : callerOf (E.state s).conts = (callerOf s.conts).map E.fn := E.callerOf s.conts
      have hconts : (E.state s).conts = s.conts.map E.cont := rfl
      rw [hc] at hcontrol
      simp only [Module.step, hcontrol, hc, Erasure.control, Erasure.act]
      rw [hcaller, hconts, hun, Option.map_map, Option.map_map]
      rfl
    | _ => rw [hc] at hcontrol; simp only [Module.step, hcontrol, hc]; rfl
  | done normal =>
    rw [hc] at hcontrol
    simp only [Module.step, hcontrol, hc]
    cases a <;> rfl

end Erases

end SnippetsLlvm.Ir
