import SnippetsLlvm.Ir.WellFormed

/-!
# The `count-bb` pass

`CountBBPass` counts executed basic blocks: `setup` creates the 64-bit variable `bbCounter`, gives the
function `setupAtExit` a body that prints it, and registers that function with `atexit` at the front of
`main`; `runOnModule` then puts a load, an addition and a store of the counter before the terminator of
every block of every other function.

The two halves find the counter in different ways.  `create_atexitCall` is handed the variable that was
created; `runOnBasicBlock` looks the name `bbCounter` up again.  The definitions follow the source
statement by statement, with the failures of the compiler's interface where it has them: the casts of
`getOrInsertFunction` results, the front of a declaration, the assertion on the counter, the operand
types of a binary operator.
-/

namespace SnippetsLlvm.CountBB

open SnippetsLlvm.Ir

/-! ### Names and types -/

/-- `k_atexitCallStr`. -/
abbrev atexitCallStr : String := "setupAtExit"

/-- `bbCounterStr`. -/
abbrev bbCounterStr : String := "bbCounter"

/-- The format the handler prints with. -/
def formatStr : String := "%d BB(s) Executed\n"

/-- `TypeBuilder<void(void)>`. -/
def atexitCallTy : FunctionType := ⟨.void, [], false⟩

/-- `TypeBuilder<int(void(void))>`: the function parameter is a pointer. -/
def atexitTy : FunctionType := ⟨.i32, [atexitCallTy.ptrTy], false⟩

/-- `TypeBuilder<int(char *, ...)>`. -/
def printfTy : FunctionType := ⟨.i32, [.i8Ptr], true⟩

/-- The bytes of a C string, its terminating zero included. -/
def cString (str : String) : List ℕ := str.toList.map Char.toNat ++ [0]

/-- `utils::geti8StrVal`: an internal constant array and the address of its first element. -/
def geti8StrVal (M : Module) (str name : String) : Module × Constant :=
  let ty : Ty := .array (cString str).length (.integer 8)
  let created := M.addGlobalVariable ty true .internal (some (.dataArray ty (cString str))) name
  (created.1, .expr (.getElementPtr ty) .i8Ptr [created.2.ref, .int 32 0, .int 32 0])

/-! ### The handler -/

/-- The load of the counter in the handler. -/
def handlerLoad (n : ℕ) (BBCounter : GlobalVariable) : Instruction :=
  ⟨n, .load, BBCounter.valueType, [.const BBCounter.ref], false⟩

/-- The call of `printf` in the handler. -/
def handlerCall (n : ℕ) (BBCounter : GlobalVariable) (printfFn : ℕ) (fmt : Constant) :
    Instruction :=
  ⟨n + 1, .call printfTy false, .i32,
    [.const fmt, (handlerLoad n BBCounter).ref, .const (.global printfFn .function printfTy.ptrTy)],
    false⟩

/-- The return of the handler. -/
def handlerRet (n : ℕ) : Instruction := ⟨n + 2, .ret, .void, [], false⟩

/-- The block `create_atexitCall` builds. -/
def reportBlock (b : ℕ) (name : String) (n : ℕ) (BBCounter : GlobalVariable) (printfFn : ℕ)
    (fmt : Constant) : BasicBlock :=
  ⟨b, name, [handlerLoad n BBCounter, handlerCall n BBCounter printfFn fmt, handlerRet n]⟩

/-- The reporting block becomes the last block of the function, under a name of its own. -/
def appendReport (BBCounter : GlobalVariable) (printfFn : ℕ) (fmt : Constant) (F : Function) :
    Function :=
  { F with blocks := F.blocks ++
             [reportBlock F.nextBlock (F.uniqueBlockName "entry") F.nextValue BBCounter printfFn fmt],
           nextValue := F.nextValue + 3, nextBlock := F.nextBlock + 1 }

/-- `create_atexitCall`. -/
def createAtexitCall (M : Module) (F : ℕ) (BBCounter : GlobalVariable) :
    Except Failure Module := do
  let printfC := M.getOrInsertFunction "printf" printfTy ⟨[], []⟩
  let printfFn ← Module.castFunction printfC.2
  let fmt := geti8StrVal printfC.1 formatStr "fmt"
  return fmt.1.modifyFunction F (appendReport BBCounter printfFn fmt.2)

/-! ### Setup -/

/-- The call that registers the handler. -/
def registerCall (n : ℕ) (atexitFn aexitCall : ℕ) : Instruction :=
  ⟨n, .call atexitTy false, .i32,
    [.const (.global aexitCall .function atexitCallTy.ptrTy),
      .const (.global atexitFn .function atexitTy.ptrTy)], false⟩

/-- The registering call goes before the first instruction of the first block. -/
def registerAtFront (atexitFn aexitCall : ℕ) (F : Function) : Function :=
  match F.blocks with
  | [] => F
  | B :: Bs => { F with blocks := B.pushFront (registerCall F.nextValue atexitFn aexitCall) :: Bs,
                        nextValue := F.nextValue + 1 }

/-- `Main->front().front()`: there is a first block with a first instruction. -/
def checkFront (M : Module) (g : ℕ) : Except Failure Unit :=
  match (M.function? g).map Function.blocks with
  | none => .error .nullDereference
  | some [] => .error .emptyList
  | some (B :: _) => if B.insts.isEmpty then .error .emptyList else .ok ()

/-- `CountBBPass::setup`. -/
def setup (M : Module) : Except Failure Module := do
  match M.getFunction "main" with
  | none => throw (.exit 1 "cannot find main\n")
  | some main =>
    let bbCounter := M.addGlobalVariable .i64 false .external (some (.int 64 0)) "bbCounter"
    let aexitC := bbCounter.1.getOrInsertFunction atexitCallStr atexitCallTy ⟨[], []⟩
    let aexitCall ← Module.castFunction aexitC.2
    let atexitC := aexitC.1.getOrInsertFunction "atexit" atexitTy ⟨["nounwind"], []⟩
    let atexitFn ← Module.castFunction atexitC.2
    checkFront atexitC.1 main.id
    createAtexitCall (atexitC.1.modifyFunction main.id (registerAtFront atexitFn aexitCall))
      aexitCall bbCounter.2

/-! ### The counting code -/

/-- `old.bb.count`, the load. -/
def oldCounter (n : ℕ) (bbCounter : GlobalVariable) : Instruction :=
  ⟨n, .load, bbCounter.valueType, [.const bbCounter.ref], false⟩

/-- `new.bb.count`, the addition of one. -/
def newCounter (n : ℕ) (bbCounter : GlobalVariable) : Instruction :=
  ⟨n + 1, .binary .add, bbCounter.valueType, [(oldCounter n bbCounter).ref, .const (.int 64 1)], false⟩

/-- The store of the new count. -/
def storeCounter (n : ℕ) (bbCounter : GlobalVariable) : Instruction :=
  ⟨n + 2, .store, .void, [(newCounter n bbCounter).ref, .const bbCounter.ref], false⟩

/-- The three instructions put before a terminator. -/
def countInsts (n : ℕ) (bbCounter : GlobalVariable) : List Instruction :=
  [oldCounter n bbCounter, newCounter n bbCounter, storeCounter n bbCounter]

/-- `CountBBPass::runOnBasicBlock`, drawing identities from `n` on. -/
def runOnBasicBlock (M : Module) (n : ℕ) (BB : BasicBlock) : Except Failure BasicBlock :=
  match M.getGlobalVariable bbCounterStr with
  | none => .error (.assertFailed "Error: unable to get BasicBlock counter")
  | some bbCounter =>
    match BB.getTerminator with
    | none => .error .nullDereference
    | some _ =>
      if bbCounter.valueType = .i64 then .ok (BB.insertBeforeLast (countInsts n bbCounter))
      else .error (.assertFailed
        "Cannot create binary operator with two operands of differing type!")

/-- The loop over the blocks of a function. -/
def runOnBlocks (M : Module) : ℕ → List BasicBlock → Except Failure (List BasicBlock)
  | _, [] => .ok []
  | n, B :: Bs => do
    let B' ← runOnBasicBlock M n B
    let Bs' ← runOnBlocks M (n + 3) Bs
    return B' :: Bs'

/-- The loop body over the functions: the handler is skipped, by name. -/
def runOnFunction (M : Module) (F : Function) : Except Failure Function :=
  if F.name = atexitCallStr then .ok F
  else do
    let Bs ← runOnBlocks M F.nextValue F.blocks
    return { F with blocks := Bs, nextValue := F.nextValue + 3 * F.blocks.length }

/-- The loop over the functions. -/
def runOnFunctions (M : Module) : List Function → Except Failure (List Function)
  | [] => .ok []
  | F :: Fs => do
    let F' ← runOnFunction M F
    let Fs' ← runOnFunctions M Fs
    return F' :: Fs'

/-- **`CountBBPass::runOnModule`.** -/
def runOnModule (M : Module) : Except Failure Module := do
  let M ← setup M
  let Fs ← runOnFunctions M M.functions
  return { M with functions := Fs }

end SnippetsLlvm.CountBB
