import SnippetsLlvm.Ir.Module
import Mathlib.Data.BitVec

/-!
# Running a module

A small-step machine for modules in their environment.  The module's own code runs one instruction at a
time; everything else, the C runtime that starts `main`, the external functions it calls, the code that
runs at exit, is the environment, which acts between the steps of the program: it may write memory, call
back into the module, return, throw or exit.

What the machine fixes is control: blocks, phi groups, calls and returns, invokes and unwinding, the
branches, the registrations of `atexit` and their execution at normal termination.  What it takes as a
parameter, `DataOps`, is what an arithmetic, a cast, a memory access or an exception dispatch computes.
`DataSem` adds the laws of these operations that the results on the passes rest on: 64-bit addition, a
64-bit memory cell, the address of the first element of an array, and that no operation forges the address
of a global it was not given.

A frame keeps the instructions of its block that are still to be executed, so that the position in a
block is a suffix of the block and not an index.
-/

namespace SnippetsLlvm.Ir

/-! ### Values and memory objects -/

/-- A memory object: a global or an object allocated at run time. -/
inductive Obj where
  | global (g : ℕ)
  | dyn (n : ℕ)
deriving DecidableEq, Repr

/-- A run-time value: an integer, a pointer into an object, a block or an assembly snippet as an operand,
or data the machine does not look into. -/
inductive Val (D : Type) where
  | void
  | int (width : ℕ) (v : BitVec width)
  | ptr (o : Obj) (off : ℤ)
  | block (b : ℕ)
  | asm
  | data (d : D)

/-- Whether a value carries the address of the global `g`. -/
def Val.Mentions {D : Type} (dm : D → ℕ → Prop) (g : ℕ) : Val D → Prop
  | .ptr (.global g') _ => g' = g
  | .data d => dm d g
  | _ => False

/-- Where a terminator sends control: to a block, with the exception in flight if any, or out of the
function by unwinding. -/
inductive Transfer (V : Type) where
  | goto (b : ℕ) (pad : Option V)
  | raise (exn : V)

/-- The operations on data. -/
structure DataOps where
  Data : Type
  /-- the contents of a memory object -/
  Content : Type
  /-- the value of a constant that is neither an integer nor a global -/
  constant : Constant → Option (Val Data)
  /-- an instruction without memory access, given the exception in flight and its operand values -/
  eval : Instruction → Option (Val Data) → List (Val Data) → Option (Val Data)
  /-- the first contents of an `alloca` -/
  alloc : Instruction → List (Val Data) → Option Content
  /-- a load, store or read-modify-write of one object at an offset -/
  access : Instruction → Content → ℤ → List (Val Data) → Option (Content × Val Data)
  /-- `indirectbr` and `catchswitch` -/
  dispatch : Instruction → Option (Val Data) → List (Val Data) → Option (Transfer (Val Data))
  /-- the destination a `callbr` takes -/
  asmTarget : Instruction → Val Data → Option ℕ
  /-- the contents of a global variable with the given type and initializer -/
  init : Ty → Constant → Content

/-- The contents read back as the 64-bit integer `x`. -/
def DataOps.Holds64 (D : DataOps) (c : D.Content) (x : BitVec 64) : Prop :=
  ∀ I vs, I.opcode = .load → I.type = .i64 → D.access I c 0 vs = some (c, .int 64 x)

/-- The operations on data together with their laws. -/
structure DataSem extends DataOps where
  eval_add : ∀ (I : Instruction) pad (x y : BitVec 64), I.opcode = .binary .add → I.type = .i64 →
    eval I pad [.int 64 x, .int 64 y] = some (.int 64 (x + y))
  init_i64 : ∀ n : ℤ, toDataOps.Holds64 (init .i64 (.int 64 n)) (BitVec.ofInt 64 n)
  store_i64 : ∀ (I : Instruction) c (x y : BitVec 64) p, toDataOps.Holds64 c x → I.opcode = .store →
    ∃ c', access I c 0 [.int 64 y, p] = some (c', .void) ∧ toDataOps.Holds64 c' y
  constant_first : ∀ elem ty g gty, constant (.expr (.getElementPtr elem) ty
    [.global g .variable gty, .int 32 0, .int 32 0]) = some (.ptr (.global g) 0)
  /-- the addresses inside data and inside memory contents -/
  dataMentions : Data → ℕ → Prop
  contentMentions : Content → ℕ → Prop
  constant_mentions : ∀ c v g, constant c = some v → v.Mentions dataMentions g → c.mentions g = true
  eval_mentions : ∀ I pad vs v g, eval I pad vs = some v → v.Mentions dataMentions g →
    ∃ u ∈ pad.toList ++ vs, u.Mentions dataMentions g
  alloc_mentions : ∀ I vs c g, alloc I vs = some c → contentMentions c g →
    ∃ u ∈ vs, u.Mentions dataMentions g
  access_mentions : ∀ I c off vs c' v g, access I c off vs = some (c', v) →
    contentMentions c' g ∨ v.Mentions dataMentions g →
    contentMentions c g ∨ ∃ u ∈ vs, u.Mentions dataMentions g
  dispatch_goto_mentions : ∀ I pad vs b e g, dispatch I pad vs = some (.goto b (some e)) →
    e.Mentions dataMentions g → ∃ u ∈ pad.toList ++ vs, u.Mentions dataMentions g
  dispatch_raise_mentions : ∀ I pad vs e g, dispatch I pad vs = some (.raise e) →
    e.Mentions dataMentions g → ∃ u ∈ pad.toList ++ vs, u.Mentions dataMentions g
  init_mentions : ∀ ty c g, contentMentions (init ty c) g → c.mentions g = true

/-! ### Frames and states -/

/-- An activation of a function of the module. -/
structure Frame (D : DataOps) where
  fn : ℕ
  block : ℕ
  prev : Option ℕ
  /-- the instructions of the block still to be executed -/
  todo : List Instruction
  locals : ℕ → Option (Val D.Data)
  args : List (Val D.Data)
  /-- the exception being handled -/
  pad : Option (Val D.Data)

/-- The result of an instruction becomes a local value. -/
def Frame.set {D : DataOps} (fr : Frame D) (id : ℕ) (v : Val D.Data) : Frame D :=
  { fr with locals := fun i => if i = id then some v else fr.locals i }

/-- The activities of the environment: before `main`, waiting for `main`, inside an external function,
running the registrations at normal termination. -/
inductive EnvKind where
  | crt | crtMain | ext | exiting
deriving DecidableEq, Repr

/-- What runs. -/
inductive Control (D : DataOps) where
  | exec (fr : Frame D)
  | env (k : EnvKind)
  | raise (exn : Val D.Data)
  | done (normal : Bool)

/-- What waits: a frame at a call site, or the environment that called back. -/
inductive Cont (D : DataOps) where
  | frame (fr : Frame D) (site : Instruction)
  | env (k : EnvKind)

/-- A state of the machine. -/
structure State (D : DataOps) where
  control : Control D
  conts : List (Cont D)
  mem : Obj → Option D.Content
  /-- the functions registered with `atexit`, the last one first -/
  handlers : List ℕ
  /-- the number of objects allocated so far -/
  nextDyn : ℕ

/-- The steps: the program's own, and those of the environment. -/
inductive Act (D : DataOps) where
  | tick
  | ret (v : Val D.Data)
  | throw (exn : Val D.Data)
  | callback (g : ℕ) (args : List (Val D.Data))
  | write (eff : Obj → Option (Option D.Content))
  | malloc (c : D.Content)
  | exit
  | runMain (args : List (Val D.Data))
  | runHandler
  | finish
  | abort

/-- What a step shows: the instructions executed with the values of their operands, an exception leaving a
call of a function, an action of the environment within the call a function made, a handler started at
exit. -/
inductive Event (D : DataOps) where
  | exec (fn : ℕ) (block : ℕ) (insts : List Instruction) (operands : List (Val D.Data))
  | unwind (fn : Option ℕ) (exn : Val D.Data)
  | act (caller : Option ℕ) (a : Act D)
  | handler (g : ℕ)

/-! ### Operands -/

section Operands

variable (M : Module) (D : DataOps)

/-- An alias stands for its aliasee. -/
def Module.resolve : ℕ → Constant → Constant
  | n + 1, .global a .alias ty =>
    match M.aliases.find? (·.id = a) with
    | some A => Module.resolve n A.aliasee
    | none => .global a .alias ty
  | _, c => c

/-- The value of a constant. -/
def Module.constVal (c : Constant) : Option (Val D.Data) :=
  match M.resolve M.aliases.length c with
  | .int w n => some (.int w (BitVec.ofInt w n))
  | .global g .function _ | .global g .variable _ | .global g .ifunc _ => some (.ptr (.global g) 0)
  | c => D.constant c

/-- The value of an operand. -/
def Module.operandVal {D : DataOps} (fr : Frame D) : Value → Option (Val D.Data)
  | .const c => M.constVal D c
  | .inst id _ _ => fr.locals id
  | .arg i _ => fr.args[i]?
  | .block b => some (.block b)
  | .inlineAsm _ _ _ _ _ _ => some .asm
  | .metadata _ => some .void

end Operands

/-! ### Control -/

section Control

variable (M : Module) {D : DataOps}

/-- A new activation, at the entry block. -/
def Function.enter (F : Function) (args : List (Val D.Data)) : Option (Frame D) :=
  F.blocks.head?.map fun E => ⟨F.id, E.id, none, E.insts, fun _ => none, args, none⟩

/-- Control goes to the block `b` of the same function. -/
def Module.jump (fr : Frame D) (b : ℕ) (pad : Option (Val D.Data)) : Option (Frame D) :=
  (M.block? fr.fn b).map fun B =>
    { fr with block := B.id, prev := some fr.block, todo := B.insts, pad := pad }

/-- The result `v` of a call comes back to the frame that made it: at the next instruction after a
`call`, at the normal destination after an `invoke`, at the chosen destination after a `callbr`. -/
def Module.deliver (fr : Frame D) (site : Instruction) (v : Val D.Data) : Option (Frame D) :=
  match site.opcode with
  | .call _ _ => some (fr.set site.id v)
  | .invoke _ => (site.blockOperands[0]?).bind fun b => M.jump (fr.set site.id v) b fr.pad
  | .callBr _ => (D.asmTarget site v).bind fun b => M.jump (fr.set site.id v) b fr.pad
  | _ => none

/-- A function returns `v` to what waits for it. -/
def Module.returnTo (v : Val D.Data) : List (Cont D) → Option (Control D × List (Cont D))
  | [] => none
  | .frame fr site :: rest => (M.deliver fr site v).map fun fr' => (.exec fr', rest)
  | .env .crtMain :: _ => some (.env .exiting, [])
  | .env k :: rest => some (.env k, rest)

/-- An exception leaves the running function: an `invoke` of a function with a personality catches it, a
plain call passes it on, external code takes it over, and at the bottom it ends the program. -/
def Module.unwind (exn : Val D.Data) : List (Cont D) → Option (Control D × List (Cont D))
  | [] => none
  | .frame fr site :: rest =>
    match site.opcode, (M.function? fr.fn).bind Function.personality with
    | .invoke _, some _ =>
      (site.blockOperands[1]?).bind fun b =>
        (M.jump fr b (some exn)).map fun fr' => (.exec fr', rest)
    | _, _ => some (.raise exn, rest)
  | .env .ext :: rest => some (.env .ext, rest)
  | .env _ :: _ => some (.done false, [])

/-- The case of a `switch` on the `w`-bit number `n`. -/
def switchTarget {V : Type} (w n : ℕ) (default : ℕ) : List (Val V) → ℕ
  | .int w' v :: .block b :: rest => if w' = w ∧ v.toNat = n then b else switchTarget w n default rest
  | _ => default

/-- Where a terminator that neither calls nor returns sends control; a branch within a handler keeps the
exception in flight. -/
def transfer (I : Instruction) (pad : Option (Val D.Data)) (vs : List (Val D.Data)) :
    Option (Transfer (Val D.Data)) :=
  match I.opcode, vs with
  | .br, [.block b] => some (.goto b pad)
  | .br, [.int 1 c, .block f, .block t] => some (.goto (if c = 1#1 then t else f) pad)
  | .switch, .int w v :: .block d :: cases => some (.goto (switchTarget w v.toNat d cases) pad)
  | .catchRet, [_, .block b] => some (.goto b none)
  | .cleanupRet, [_] => pad.map .raise
  | .cleanupRet, [_, .block b] => some (.goto b pad)
  | .resume, [v] => some (.raise v)
  | .indirectBr, vs => D.dispatch I pad vs
  | .catchSwitch, vs => D.dispatch I pad vs
  | _, _ => none

end Control

/-! ### The steps of the program -/

/-- How an opcode is executed. -/
inductive OpKind where
  | phi | value | alloca | memory | call | ret | transfer
deriving DecidableEq, Repr

/-- The kind of an opcode. -/
def Opcode.kind : Opcode → OpKind
  | .phi _ => .phi
  | .alloca _ => .alloca
  | .load | .store | .cmpXchg | .atomicRMW _ | .vaArg => .memory
  | .call _ _ | .invoke _ | .callBr _ => .call
  | .ret => .ret
  | .br | .switch | .indirectBr | .resume | .unreachable | .cleanupRet | .catchRet | .catchSwitch =>
    .transfer
  | _ => .value

/-- The operand that points to the accessed object: the second one of a store, the first one of the other
memory instructions. -/
def Instruction.pointerIndex (I : Instruction) : ℕ :=
  match I.opcode with
  | .store => 1
  | _ => 0

section Program

variable (M : Module) {D : DataOps}

/-- The values the phi nodes of a group take when control comes from the block `prev`. -/
def Module.phiVals (fr : Frame D) (phis : List Instruction) : Option (List (Val D.Data)) :=
  phis.mapM fun I =>
    match I.opcode, fr.prev with
    | .phi incoming, some b =>
      ((I.operands.zip incoming).find? (·.2 = b)).bind fun p => M.operandVal fr p.1
    | _, _ => none

/-- The locals after a group of phi nodes, all read before the first is written. -/
def Frame.setAll (fr : Frame D) : List Instruction → List (Val D.Data) → Frame D
  | I :: is, v :: vs => (fr.set I.id v).setAll is vs
  | _, _ => fr

/-- The values of the operands of an instruction. -/
def Module.operandVals (fr : Frame D) (I : Instruction) : Option (List (Val D.Data)) :=
  I.operands.mapM (M.operandVal fr)

/-- The argument values of a call: its operand values without the callee and the destinations. -/
def callArgVals {V : Type} (vs : List (Val V)) : List (Val V) :=
  vs.dropLast.filter fun
    | .block _ => false
    | _ => true

/-- A call: into a function of the module, a registration with the external `atexit`, or out to the
environment, also through a pointer the environment made. -/
def Module.callStep (s : State D) (fr : Frame D) (I : Instruction) (vs : List (Val D.Data)) :
    Option (State D) :=
  let args := callArgVals vs
  let outside : State D := { s with control := .env .ext, conts := .frame fr I :: s.conts }
  match vs.getLast? with
  | some (.ptr (.global g) 0) =>
    match M.function? g with
    | some F =>
      if F.isDeclaration then
        if F.name = "atexit" then
          match args with
          | [.ptr (.global h) 0] =>
            (M.deliver fr I (.int 32 0)).map fun fr' =>
              { s with control := .exec fr', handlers := h :: s.handlers }
          | _ => none
        else some outside
      else (F.enter args).map fun fr' =>
        { s with control := .exec fr', conts := .frame fr I :: s.conts }
    | none => if (M.ifuncs.find? (·.id = g)).isSome then some outside else none
  | some .asm | some (.ptr (.dyn _) _) | some (.data _) => some outside
  | _ => none

/-- The effect of one instruction that is not a phi node, in a frame that has moved past it. -/
def Module.instStep (s : State D) (fr : Frame D) (I : Instruction) (vs : List (Val D.Data)) :
    Option (State D) :=
  match I.opcode.kind with
  | .phi => none
  | .value => (D.eval I fr.pad vs).map fun v => { s with control := .exec (fr.set I.id v) }
  | .alloca => (D.alloc I vs).map fun c =>
      { s with control := .exec (fr.set I.id (.ptr (.dyn s.nextDyn) 0)),
               mem := fun o => if o = .dyn s.nextDyn then some c else s.mem o,
               nextDyn := s.nextDyn + 1 }
  | .memory =>
    match vs[I.pointerIndex]? with
    | some (.ptr o off) =>
      (s.mem o).bind fun c => (D.access I c off vs).map fun r =>
        { s with control := .exec (fr.set I.id r.2),
                 mem := fun o' => if o' = o then some r.1 else s.mem o' }
    | _ => none
  | .call => M.callStep s fr I vs
  | .ret => (M.returnTo (vs.head?.getD .void) s.conts).map fun r =>
      { s with control := r.1, conts := r.2 }
  | .transfer =>
    match transfer I fr.pad vs with
    | some (.goto b pad) => (M.jump fr b pad).map fun fr' => { s with control := .exec fr' }
    | some (.raise exn) => some { s with control := .raise exn }
    | none => none

/-- One step of the program in the frame `fr`: a whole group of phi nodes, or one other instruction. -/
def Module.execStep (s : State D) (fr : Frame D) : Option (Event D × State D) :=
  match fr.todo with
  | [] => none
  | I :: rest =>
    if I.isPhi then
      let phis := fr.todo.takeWhile Instruction.isPhi
      (M.phiVals fr phis).map fun vs =>
        let fr' := { fr.setAll phis vs with todo := fr.todo.dropWhile Instruction.isPhi }
        (.exec fr.fn fr.block phis vs, { s with control := .exec fr' })
    else
      (M.operandVals fr I).bind fun vs =>
        (M.instStep s { fr with todo := rest } I vs).map fun s' =>
          (.exec fr.fn fr.block [I] vs, s')

/-! ### The steps of the environment -/

/-- The function whose call the environment is serving, if a call brought it in. -/
def callerOf : List (Cont D) → Option ℕ
  | .frame fr _ :: _ => some fr.fn
  | _ => none

/-- The environment calls a function of the module. -/
def Module.enterFrom (s : State D) (k : EnvKind) (g : ℕ) (args : List (Val D.Data)) :
    Option (State D) :=
  (M.function? g).bind fun F => (F.enter args).map fun fr =>
    { s with control := .exec fr, conts := .env k :: s.conts }

/-- At normal termination the last registration is taken off and its function runs; a function outside the
module runs without a trace here. -/
def Module.startHandler (s : State D) : Option (State D) :=
  match s.handlers with
  | [] => none
  | g :: rest => (M.function? g).bind fun F =>
    if F.isDeclaration then some { s with handlers := rest }
    else M.enterFrom { s with handlers := rest } .exiting g []

/-- A memory effect of the environment on the objects that are there. -/
def overwrite {C : Type} (mem : Obj → Option C) (eff : Obj → Option (Option C)) : Obj → Option C :=
  fun o => (mem o).bind fun c => (eff o).getD (some c)

/-- One action of the environment. -/
def Module.envStep (s : State D) (k : EnvKind) : Act D → Option (State D)
  | .tick => none
  | .ret v =>
    match k, s.conts with
    | .ext, .frame fr site :: rest =>
      (M.deliver fr site v).map fun fr' => { s with control := .exec fr', conts := rest }
    | _, _ => none
  | .throw exn =>
    match k with
    | .ext => some { s with control := .raise exn }
    | _ => none
  | .callback g args => M.enterFrom s k g args
  | .write eff => some { s with mem := overwrite s.mem eff }
  | .malloc c => some { s with mem := fun o => if o = .dyn s.nextDyn then some c else s.mem o,
                               nextDyn := s.nextDyn + 1 }
  | .exit =>
    match k with
    | .exiting => none
    | _ => some { s with control := .env .exiting, conts := [] }
  | .runMain args =>
    match k, M.getFunction "main" with
    | .crt, some F => M.enterFrom s .crtMain F.id args
    | _, _ => none
  | .runHandler =>
    match k with
    | .exiting => M.startHandler s
    | _ => none
  | .finish =>
    match k, s.handlers with
    | .exiting, [] => some { s with control := .done true }
    | _, _ => none
  | .abort => some { s with control := .done false }

/-- The event of an action of the environment. -/
def envEvent (s : State D) : Act D → Event D
  | .runHandler => .handler (s.handlers.headD 0)
  | a => .act (callerOf s.conts) a

/-- **One step of the machine.** -/
def Module.step (s : State D) (a : Act D) : Option (Event D × State D) :=
  match s.control, a with
  | .exec fr, .tick => M.execStep s fr
  | .raise exn, .tick =>
    (M.unwind exn s.conts).map fun r =>
      (.unwind (callerOf s.conts) exn, { s with control := r.1, conts := r.2 })
  | .env k, a => (M.envStep s k a).map fun s' => (envEvent s a, s')
  | _, _ => none

/-- The state in which the environment has the memory of the module set up and nothing has run; the
contents of the variables defined elsewhere are an input. -/
def Module.initState (imports : ℕ → Option D.Content) : State D where
  control := .env .crt
  conts := []
  mem := fun
    | .global g => (M.global? g).bind fun G =>
      match G.initializer with
      | some c => some (D.init G.valueType c)
      | none => imports g
    | .dyn _ => none
  handlers := []
  nextDyn := 0

end Program

end SnippetsLlvm.Ir
