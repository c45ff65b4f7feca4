import SnippetsLlvm.Ir.Values
import Mathlib.Data.List.Nodup
import Mathlib.Data.List.Perm.Subperm

/-!
# Modules, symbol tables and the editing operations of the passes

A module is its lists of functions, global variables, aliases and ifuncs, together with the counters from
which the identity of the next global and the suffix of the next clashing name are drawn.  A function
likewise carries the counter for its next instruction and its next block: creating an object is taking the
counter, so an object created by a pass differs from every object that was there before.

The operations are the ones the passes call:

* `getNamedValue`, `getFunction`, `getGlobalVariable` — lookup in the symbol table, by name;
* `uniqueName`, `addGlobalVariable`, `addFunction`, `setFunctionName` — creation and renaming, where a
  name already taken gets a fresh suffix; `uniqueBlockName`, the same for the blocks of one function;
* `getOrInsertFunction` — the existing symbol of the name, behind a bitcast when its type is another one,
  or else a new declaration;
* `modifyFunction`, `eraseFunction` — the edits of function bodies and of the function list.

`Failure` is how a pass ends when it does not return: a failed cast or assertion, the front of an empty
list, a null dereference, a fatal report, an explicit exit.
-/

namespace SnippetsLlvm.Ir

/-- The ways a pass stops without a result. -/
inductive Failure where
  | exit (code : ℕ) (message : String)
  | castFailed (target : String)
  | assertFailed (message : String)
  | emptyList
  | nullDereference
  | reportFatalError (message : String)
  | unreachable (message : String)
  | usesRemain
deriving DecidableEq, Repr

/-! ### Blocks -/

/-- A basic block: its instructions, the phi nodes and the terminator among them. -/
structure BasicBlock where
  id : ℕ
  name : String
  insts : List Instruction

namespace BasicBlock

/-- `BasicBlock::getTerminator`: the last instruction, if it is a terminator. -/
def getTerminator (B : BasicBlock) : Option Instruction :=
  B.insts.getLast?.filter Instruction.isTerminator

/-- The successors of a block, as `succ_begin` enumerates them. -/
def successors (B : BasicBlock) : List ℕ :=
  match B.getTerminator with
  | some t => t.successors
  | none => []

/-- Insertion of instructions before the last one, where the terminator is. -/
def insertBeforeLast (B : BasicBlock) (is : List Instruction) : BasicBlock :=
  { B with insts := B.insts.dropLast ++ is ++ B.insts.getLast?.toList }

/-- Insertion of an instruction before the first one. -/
def pushFront (B : BasicBlock) (I : Instruction) : BasicBlock :=
  { B with insts := I :: B.insts }

@[simp] theorem insertBeforeLast_id (B : BasicBlock) (is : List Instruction) :
    (B.insertBeforeLast is).id = B.id := rfl

@[simp] theorem pushFront_id (B : BasicBlock) (I : Instruction) : (B.pushFront I).id = B.id := rfl

end BasicBlock

/-! ### Global values -/

/-- `GlobalValue::LinkageTypes`. -/
inductive Linkage where
  | external | availableExternally | linkOnceAny | linkOnceODR | weakAny | weakODR
  | appending | internal | priv | externalWeak | common
deriving DecidableEq, Repr

/-- `GlobalValue::isLocalLinkage`. -/
def Linkage.isLocal : Linkage → Bool
  | .internal | .priv => true
  | _ => false

/-- A function of a module; a declaration has no blocks. -/
structure Function where
  id : ℕ
  name : String
  type : FunctionType
  linkage : Linkage
  attributes : AttributeList
  /-- whether the address of the function is `unnamed_addr` -/
  unnamedAddr : Bool
  callingConv : ℕ
  personality : Option Constant
  /-- the collector strategy -/
  gc : Option String
  subprogram : Option ℕ
  intrinsic : Option Intrinsic
  blocks : List BasicBlock
  nextValue : ℕ
  nextBlock : ℕ

namespace Function

/-- `GlobalValue::isDeclaration`. -/
def isDeclaration (F : Function) : Bool := F.blocks.isEmpty

/-- All instructions of a function, in order. -/
def insts (F : Function) : List Instruction := F.blocks.flatMap BasicBlock.insts

/-- The block with the given identity. -/
def block? (F : Function) (b : ℕ) : Option BasicBlock := F.blocks.find? (·.id = b)

/-- The name a new block asked to be called `base` gets: `base`, or the first of `base1`, `base2` and so on that no
block of the function has. -/
def uniqueBlockName (F : Function) (base : String) : String :=
  if base ∈ F.blocks.map BasicBlock.name then
    (((List.range (F.blocks.length + 1)).map fun k => base ++ toString (k + 1)).find?
      (· ∉ F.blocks.map BasicBlock.name)).getD base
  else base

/-- The reference to a function, of pointer type. -/
def ref (F : Function) : Constant := .global F.id .function F.type.ptrTy

end Function

/-- A global variable of a module; a declaration has no initializer. -/
structure GlobalVariable where
  id : ℕ
  name : String
  valueType : Ty
  isConstant : Bool
  linkage : Linkage
  initializer : Option Constant

/-- The reference to a global variable. -/
def GlobalVariable.ref (G : GlobalVariable) : Constant :=
  .global G.id .variable (.pointer G.valueType 0)

/-- A global alias. -/
structure GlobalAlias where
  id : ℕ
  name : String
  valueType : Ty
  linkage : Linkage
  aliasee : Constant

/-- A global ifunc. -/
structure GlobalIFunc where
  id : ℕ
  name : String
  valueType : Ty
  linkage : Linkage
  resolver : Constant

/-- An entry of the symbol table. -/
inductive GlobalValue where
  | function (F : Function)
  | variable (G : GlobalVariable)
  | alias (A : GlobalAlias)
  | ifunc (I : GlobalIFunc)

namespace GlobalValue

/-- `Value::getName`. -/
def name : GlobalValue → String
  | .function F => F.name
  | .variable G => G.name
  | .alias A => A.name
  | .ifunc I => I.name

/-- The identity of a global value. -/
def id : GlobalValue → ℕ
  | .function F => F.id
  | .variable G => G.id
  | .alias A => A.id
  | .ifunc I => I.id

/-- `Value::getType`: the pointer type of a global value. -/
def getType : GlobalValue → Ty
  | .function F => F.type.ptrTy
  | .variable G => .pointer G.valueType 0
  | .alias A => .pointer A.valueType 0
  | .ifunc I => .pointer I.valueType 0

/-- The class of a global value. -/
def kind : GlobalValue → GlobalKind
  | .function _ => .function
  | .variable _ => .variable
  | .alias _ => .alias
  | .ifunc _ => .ifunc

/-- The reference to a global value. -/
def ref (V : GlobalValue) : Constant := .global V.id V.kind V.getType

/-- A global value after an edit of the function `g`. -/
def edit (g : ℕ) (f : Function → Function) : GlobalValue → GlobalValue
  | .function F => .function (if F.id = g then f F else F)
  | V => V

end GlobalValue

/-! ### Modules -/

/-- A module. -/
structure Module where
  functions : List Function
  globals : List GlobalVariable
  aliases : List GlobalAlias
  ifuncs : List GlobalIFunc
  /-- the bodies of the identified structs, absent for an opaque one -/
  structs : List (String × Option (List Ty))
  /-- the identity the next global value gets -/
  nextGlobal : ℕ
  /-- the last suffix handed out to a clashing name -/
  lastUnique : ℕ

namespace Module

/-- All global values of a module. -/
def globalValues (M : Module) : List GlobalValue :=
  M.functions.map .function ++ M.globals.map .variable ++ M.aliases.map .alias
    ++ M.ifuncs.map .ifunc

/-- `Module::getNamedValue`. -/
def getNamedValue (M : Module) (name : String) : Option GlobalValue :=
  M.globalValues.find? (·.name = name)

/-- `Module::getFunction`: a `dyn_cast` of the named value. -/
def getFunction (M : Module) (name : String) : Option Function :=
  match M.getNamedValue name with
  | some (.function F) => some F
  | _ => none

/-- `Module::getGlobalVariable` without local symbols: a variable of internal or private linkage is not
found. -/
def getGlobalVariable (M : Module) (name : String) : Option GlobalVariable :=
  match M.getNamedValue name with
  | some (.variable G) => if G.linkage.isLocal then none else some G
  | _ => none

/-- The function with the given identity. -/
def function? (M : Module) (g : ℕ) : Option Function := M.functions.find? (·.id = g)

/-- The global variable with the given identity. -/
def global? (M : Module) (g : ℕ) : Option GlobalVariable := M.globals.find? (·.id = g)

/-- A block of a function. -/
def block? (M : Module) (g : ℕ) (b : ℕ) : Option BasicBlock :=
  (M.function? g).bind (·.block? b)

/-- `CallBase::getCalledFunction`: the callee operand when it is itself a function of the type of the call. -/
def getCalledFunction (M : Module) (I : Instruction) : Option Function :=
  match I.calledOperand with
  | some (.const (.global g .function _)) => (M.function? g).filter fun F => some F.type = I.callType
  | _ => none

/-! ### Names -/

/-- The names in use. -/
def names (M : Module) : List String := M.globalValues.map GlobalValue.name

/-- The suffixed candidates of `ValueSymbolTable::makeUniqueName`, one more than there are names in use. -/
def nameCandidates (M : Module) (base : String) : List (String × ℕ) :=
  (List.range (M.names.length + 1)).map fun k =>
    (base ++ "." ++ toString (M.lastUnique + 1 + k), M.lastUnique + 1 + k)

/-- The name an object asked to be called `base` gets, and the new last suffix. -/
def uniqueName (M : Module) (base : String) : String × ℕ :=
  if base ∈ M.names then
    ((M.nameCandidates base).find? (·.1 ∉ M.names)).getD (base, M.lastUnique)
  else (base, M.lastUnique)

/-! ### Creation, renaming, edits -/

/-- `new GlobalVariable(M, ...)`: the variable is appended to the list of the module. -/
def addGlobalVariable (M : Module) (valueType : Ty) (isConstant : Bool) (linkage : Linkage)
    (initializer : Option Constant) (name : String) : Module × GlobalVariable :=
  let unique := M.uniqueName name
  let G : GlobalVariable := ⟨M.nextGlobal, unique.1, valueType, isConstant, linkage, initializer⟩
  ({ M with globals := M.globals ++ [G], nextGlobal := M.nextGlobal + 1, lastUnique := unique.2 }, G)

/-- `Function::Create`: a function without body, with the default calling convention and neither
personality, collector strategy nor debug subprogram, appended to the list of the module. -/
def addFunction (M : Module) (type : FunctionType) (linkage : Linkage) (name : String)
    (attributes : AttributeList) : Module × Function :=
  let unique := M.uniqueName name
  let F : Function := ⟨M.nextGlobal, unique.1, type, linkage, attributes, false, 0, none, none, none, none,
    [], 0, 0⟩
  ({ M with functions := M.functions ++ [F], nextGlobal := M.nextGlobal + 1,
            lastUnique := unique.2 }, F)

/-- An edit of the function with identity `g`. -/
def modifyFunction (M : Module) (g : ℕ) (f : Function → Function) : Module :=
  { M with functions := M.functions.map fun F => if F.id = g then f F else F }

/-- `Value::setName` on a function; the old name is free while the new one is chosen. -/
def setFunctionName (M : Module) (g : ℕ) (name : String) : Module :=
  let unique := (M.modifyFunction g fun F => { F with name := "" }).uniqueName name
  { M.modifyFunction g (fun F => { F with name := unique.1 }) with lastUnique := unique.2 }

/-- `Function::eraseFromParent`, on the list of functions. -/
def eraseFunction (M : Module) (g : ℕ) : Module :=
  { M with functions := M.functions.filter (·.id ≠ g) }

/-- `Module::getOrInsertFunction`: the named symbol, as it is when its type is the asked one and behind a
bitcast otherwise; a new external declaration when there is none. -/
def getOrInsertFunction (M : Module) (name : String) (type : FunctionType)
    (attributes : AttributeList) : Module × Constant :=
  match M.getNamedValue name with
  | none =>
    let created := M.addFunction type .external name attributes
    (created.1, created.2.ref)
  | some V =>
    if V.getType = type.ptrTy then (M, V.ref)
    else (M, .expr (.cast .bitCast) type.ptrTy [V.ref])

/-- `cast<Function>`. -/
def castFunction : Constant → Except Failure ℕ
  | .global g .function _ => .ok g
  | _ => .error (.castFailed "Function")

/-! ### What the operations leave in the symbol table -/

theorem getNamedValue_eq_none_iff {M : Module} {n : String} :
    M.getNamedValue n = none ↔ n ∉ M.names := by
  simp [getNamedValue, names, List.find?_eq_none]

theorem mem_names_of_getNamedValue {M : Module} {n : String} {V : GlobalValue}
    (h : M.getNamedValue n = some V) : n ∈ M.names := by
  by_contra hn
  rw [getNamedValue_eq_none_iff.mpr hn] at h
  cases h

theorem uniqueName_of_notMem {M : Module} {base : String} (h : base ∉ M.names) :
    M.uniqueName base = (base, M.lastUnique) := by
  rw [uniqueName, if_neg h]

theorem toString_injective : Function.Injective (toString : ℕ → String) := by
  intro m n h
  have hd : Nat.toDigits 10 m = Nat.toDigits 10 n := by
    simpa only [Nat.toString_eq_ofList_toDigits, String.ofList_inj] using h
  rw [← Nat.ofDigitChars_ten_toDigits (n := m), hd, Nat.ofDigitChars_ten_toDigits]

/-- Names in use, and one candidate more: one of the candidates is free. -/
theorem exists_notMem_of_injective {f : ℕ → String} (hf : Function.Injective f) (names : List String) :
    ∃ k < names.length + 1, f k ∉ names := by
  by_contra hall
  push Not at hall
  have hsub : (List.range (names.length + 1)).map f ⊆ names := by
    intro n hn
    obtain ⟨k, hk, rfl⟩ := List.mem_map.mp hn
    exact hall k (List.mem_range.mp hk)
  have hlen := (List.subperm_of_subset (List.nodup_range.map hf) hsub).length_le
  rw [List.length_map, List.length_range] at hlen
  omega

/-- **A clashing name has a free candidate**: there are more candidates than names in use. -/
theorem exists_free_candidate (M : Module) (base : String) :
    ∃ c ∈ M.nameCandidates base, c.1 ∉ M.names := by
  have hinj : Function.Injective fun k : ℕ => base ++ "." ++ toString (M.lastUnique + 1 + k) := by
    intro i j hij
    have := toString_injective ((String.append_right_inj (base ++ ".")).mp hij)
    omega
  obtain ⟨k, hk, hfree⟩ := exists_notMem_of_injective hinj M.names
  exact ⟨_, List.mem_map_of_mem (List.mem_range.mpr hk), hfree⟩

/-- **The name handed out is free.** -/
theorem uniqueName_notMem (M : Module) (base : String) : (M.uniqueName base).1 ∉ M.names := by
  rw [uniqueName]
  split
  · cases hf : (M.nameCandidates base).find? (·.1 ∉ M.names) with
    | none =>
      obtain ⟨c, hc, hfree⟩ := M.exists_free_candidate base
      have := List.find?_eq_none.mp hf c hc
      simp [hfree] at this
    | some c => simpa using List.find?_some hf
  · assumption

/-- The name handed out extends the name asked for. -/
theorem uniqueName_append (M : Module) (base : String) :
    ∃ suffix, (M.uniqueName base).1 = base ++ suffix := by
  rw [uniqueName]
  split
  · cases hf : (M.nameCandidates base).find? (·.1 ∉ M.names) with
    | none => exact ⟨"", by simp⟩
    | some c =>
      obtain ⟨k, _, rfl⟩ := List.mem_map.mp (List.mem_of_find?_eq_some hf)
      exact ⟨"." ++ toString (M.lastUnique + 1 + k), by simp [String.append_assoc]⟩
  · exact ⟨"", by simp⟩

/-- **The name of a new block is free** in its function. -/
theorem uniqueBlockName_notMem (F : Function) (base : String) :
    F.uniqueBlockName base ∉ F.blocks.map BasicBlock.name := by
  rw [Function.uniqueBlockName]
  split
  · cases hf : ((List.range (F.blocks.length + 1)).map fun k => base ++ toString (k + 1)).find?
        (· ∉ F.blocks.map BasicBlock.name) with
    | none =>
      have hinj : Function.Injective fun k : ℕ => base ++ toString (k + 1) := by
        intro i j hij
        have := toString_injective ((String.append_right_inj base).mp hij)
        omega
      obtain ⟨k, hk, hfree⟩ := exists_notMem_of_injective hinj (F.blocks.map BasicBlock.name)
      rw [List.length_map] at hk
      have hall := List.find?_eq_none.mp hf _ (List.mem_map_of_mem (List.mem_range.mpr hk))
      simp only [hfree, not_false_eq_true, decide_true, not_true_eq_false] at hall
    | some n => simpa using List.find?_some hf
  · assumption

/-! ### Lookup after an operation -/

/-- The first match among the functions, then the variables, the aliases and the ifuncs. -/
theorem getNamedValue_eq (M : Module) (n : String) :
    M.getNamedValue n =
      ((M.functions.find? (·.name = n)).map .function).or
        (((M.globals.find? (·.name = n)).map .variable).or
          (((M.aliases.find? (·.name = n)).map .alias).or
            ((M.ifuncs.find? (·.name = n)).map .ifunc))) := by
  simp only [getNamedValue, globalValues, List.find?_append, List.find?_map, Option.or_assoc]
  rfl

theorem name_of_getNamedValue {M : Module} {n : String} {V : GlobalValue}
    (h : M.getNamedValue n = some V) : V.name = n := by
  simpa using List.find?_some h

theorem mem_of_getNamedValue {M : Module} {n : String} {V : GlobalValue}
    (h : M.getNamedValue n = some V) : V ∈ M.globalValues :=
  List.mem_of_find?_eq_some h

theorem getFunction_eq_some {M : Module} {n : String} {F : Function} :
    M.getFunction n = some F ↔ M.getNamedValue n = some (.function F) := by
  rw [getFunction]
  split <;> simp_all

theorem mem_functions_of_getFunction {M : Module} {n : String} {F : Function}
    (h : M.getFunction n = some F) : F ∈ M.functions := by
  have hm := mem_of_getNamedValue (getFunction_eq_some.mp h)
  simpa [globalValues] using hm

theorem name_of_getFunction {M : Module} {n : String} {F : Function}
    (h : M.getFunction n = some F) : F.name = n :=
  name_of_getNamedValue (getFunction_eq_some.mp h)

theorem getNamedValue_addGlobalVariable_ne {M : Module} {ty : Ty} {b : Bool} {l : Linkage}
    {i : Option Constant} {name n : String} (h : (M.uniqueName name).1 ≠ n) :
    (M.addGlobalVariable ty b l i name).1.getNamedValue n = M.getNamedValue n := by
  simp [getNamedValue_eq, addGlobalVariable, List.find?_append, h]

theorem getNamedValue_addFunction_ne {M : Module} {ty : FunctionType} {l : Linkage}
    {attrs : AttributeList} {name n : String} (h : (M.uniqueName name).1 ≠ n) :
    (M.addFunction ty l name attrs).1.getNamedValue n = M.getNamedValue n := by
  simp [getNamedValue_eq, addFunction, List.find?_append, h]

theorem getNamedValue_addGlobalVariable_self {M : Module} {ty : Ty} {b : Bool} {l : Linkage}
    {i : Option Constant} {name : String} (h : name ∉ M.names) :
    (M.addGlobalVariable ty b l i name).1.getNamedValue name =
      some (.variable (M.addGlobalVariable ty b l i name).2) := by
  have hnone := getNamedValue_eq_none_iff.mpr h
  simp only [getNamedValue_eq, Option.or_eq_none_iff, Option.map_eq_none_iff] at hnone
  simp [getNamedValue_eq, addGlobalVariable, List.find?_append, uniqueName_of_notMem h, hnone.1,
    hnone.2.1]

theorem getNamedValue_addFunction_self {M : Module} {ty : FunctionType} {l : Linkage}
    {attrs : AttributeList} {name : String} (h : name ∉ M.names) :
    (M.addFunction ty l name attrs).1.getNamedValue name =
      some (.function (M.addFunction ty l name attrs).2) := by
  have hnone := getNamedValue_eq_none_iff.mpr h
  simp only [getNamedValue_eq, Option.or_eq_none_iff, Option.map_eq_none_iff] at hnone
  simp [getNamedValue_eq, addFunction, List.find?_append, uniqueName_of_notMem h, hnone.1]

theorem getNamedValue_modifyFunction {M : Module} {g : ℕ} {f : Function → Function}
    (hf : ∀ F, (f F).name = F.name) (n : String) :
    (M.modifyFunction g f).getNamedValue n = (M.getNamedValue n).map (GlobalValue.edit g f) := by
  have hcomp : ∀ Fs : List Function,
      (Fs.map fun F => if F.id = g then f F else F).find? (·.name = n) =
        (Fs.find? (·.name = n)).map fun F => if F.id = g then f F else F := by
    intro Fs
    rw [List.find?_map]
    congr 2
    funext F
    simp only [Function.comp_apply]
    split <;> simp [hf]
  simp only [getNamedValue_eq, modifyFunction, hcomp]
  cases M.functions.find? (·.name = n) <;> cases M.globals.find? (·.name = n) <;>
    cases M.aliases.find? (·.name = n) <;> cases M.ifuncs.find? (·.name = n) <;>
      simp [GlobalValue.edit]

/-- Edits that keep identities do not change what an identity finds. -/
theorem find?_map_id {f : Function → Function} (hf : ∀ F, (f F).id = F.id) (Fs : List Function)
    (g : ℕ) : (Fs.map f).find? (·.id = g) = (Fs.find? (·.id = g)).map f := by
  rw [List.find?_map]
  congr 2
  funext F
  simp only [Function.comp_apply, hf]

@[simp] theorem modifyFunction_globals (M : Module) (g : ℕ) (f : Function → Function) :
    (M.modifyFunction g f).globals = M.globals := rfl

@[simp] theorem modifyFunction_aliases (M : Module) (g : ℕ) (f : Function → Function) :
    (M.modifyFunction g f).aliases = M.aliases := rfl

@[simp] theorem modifyFunction_ifuncs (M : Module) (g : ℕ) (f : Function → Function) :
    (M.modifyFunction g f).ifuncs = M.ifuncs := rfl

theorem function?_modifyFunction {M : Module} {g : ℕ} {f : Function → Function}
    (hf : ∀ F, (f F).id = F.id) (g' : ℕ) :
    (M.modifyFunction g f).function? g' =
      (M.function? g').map fun F => if F.id = g then f F else F := by
  rw [function?, function?, modifyFunction]
  refine find?_map_id (fun F => ?_) _ _
  split <;> simp [hf]

theorem function?_addFunction_ne {M : Module} {ty : FunctionType} {l : Linkage} {name : String}
    {attrs : AttributeList} {g : ℕ} (h : g ≠ M.nextGlobal) :
    (M.addFunction ty l name attrs).1.function? g = M.function? g := by
  simp [function?, addFunction, List.find?_append, h.symm]

theorem function?_addFunction_self {M : Module} {ty : FunctionType} {l : Linkage} {name : String}
    {attrs : AttributeList} (h : ∀ F ∈ M.functions, F.id ≠ M.nextGlobal) :
    (M.addFunction ty l name attrs).1.function? M.nextGlobal =
      some (M.addFunction ty l name attrs).2 := by
  have hnone : M.functions.find? (·.id = M.nextGlobal) = none := by
    simpa [List.find?_eq_none] using h
  simp [function?, addFunction, List.find?_append, hnone]

theorem mem_of_function? {M : Module} {g : ℕ} {F : Function} (h : M.function? g = some F) :
    F ∈ M.functions ∧ F.id = g :=
  ⟨List.mem_of_find?_eq_some h, by simpa using List.find?_some h⟩

theorem name_mem_names {M : Module} {F : Function} (h : F ∈ M.functions) : F.name ∈ M.names := by
  have : GlobalValue.function F ∈ M.globalValues := by simp [globalValues, h]
  exact List.mem_map_of_mem this

/-- With distinct identities, a listed object is the one its identity finds. -/
theorem find?_of_mem_nodup {α : Type} {key : α → ℕ} {l : List α} (hl : (l.map key).Nodup) {x : α}
    (hx : x ∈ l) : l.find? (key · = key x) = some x := by
  induction l with
  | nil => simp at hx
  | cons y ys ih =>
    rw [List.map_cons, List.nodup_cons] at hl
    rcases List.mem_cons.mp hx with rfl | hx
    · simp
    · have hne : key y ≠ key x := fun h => hl.1 (h ▸ List.mem_map_of_mem hx)
      rw [List.find?_cons_of_neg (by simpa using hne)]
      exact ih hl.2 hx

/-- With distinct identities, an object taken out of a list leaves the others. -/
theorem perm_cons_filter_nodup {α : Type} {key : α → ℕ} {l : List α} (hl : (l.map key).Nodup)
    {x : α} (hx : x ∈ l) : l.Perm (x :: l.filter (key · ≠ key x)) := by
  induction l with
  | nil => cases hx
  | cons y ys ih =>
    rw [List.map_cons, List.nodup_cons] at hl
    rcases List.mem_cons.mp hx with rfl | hx
    · have hall : ys.filter (key · ≠ key x) = ys := by
        refine List.filter_eq_self.mpr fun z hz => ?_
        have hne : key z ≠ key x := fun h => hl.1 (h ▸ List.mem_map_of_mem hz)
        simpa using hne
      rw [List.filter_cons_of_neg (by simp), hall]
    · have hne : key y ≠ key x := fun h => hl.1 (h ▸ List.mem_map_of_mem hx)
      rw [List.filter_cons_of_pos (by simpa using hne)]
      exact ((ih hl.2 hx).cons y).trans (.swap x y _)

end Module

end SnippetsLlvm.Ir
