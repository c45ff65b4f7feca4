import SnippetsLlvm.Ir.Printer
import SnippetsLlvm.Ir.Verifier
import SnippetsLlvm.Library.Emission

/-!
# The `DumpConsts` pass

`DumpConsts` prints the constants among the operands of every instruction: a global by its name, any other
constant by the compiler's printer and the chain of casts `dumpConst`.  That chain does not cover every
class of constants, and two of its branches ask for what the constant does not have: the name of a
constant that is not a global, and the alignment of a value that is not a pointer.

* `Describable` — the constants `dumpConst` gets through;
* `dumpConst_ok_iff` — it gets through exactly these;
* `runOnModule_describes_iff` — **the pass completes, with one entry for each constant operand, exactly on
  the modules in which every constant operand is a global or describable**.
-/

namespace SnippetsLlvm.DumpConsts

open SnippetsLlvm.Ir SnippetsLlvm.Library

variable (P : Printer) (M : Module)

/-! ### The pass -/

/-- `Value::getValueName` of a constant: only a global has an entry in the symbol table. -/
def getValueName : Constant → Option String
  | .global g _ _ => some (M.globalName g)
  | _ => none

/-- `Value::getPointerAlignment` of a constant, which asserts a pointer. -/
def getPointerAlignment (c : Constant) : Except Failure ℕ :=
  if c.getType.isPointerTy then .ok (P.pointerAlignment c) else .error (.assertFailed "must be pointer")

/-- The kinds of globals, in the last branch of the chain. -/
def dumpGlobal (g : ℕ) : GlobalKind → String
  | .ifunc => "GlobalIFunc: " ++ M.globalName g ++ "\n"
  | .alias => "GlobalAlias: " ++ M.globalName g ++ "\n"
  | .variable => "GlobalVariable: " ++ M.globalName g ++ "\n"
  | .function => "Function: " ++ M.globalName g ++ "\n"

/-- `DumpConsts::dumpConst`. -/
def dumpConst : Constant → Except Failure String
  | .int w n => .ok ("ConstantInt: value=" ++ toString (BitVec.ofInt w n).toInt ++ "\n")
  | .fp ty bits => .ok ("ConstantFP: value=" ++ P.float ty bits ++ "\n")
  | .array ty es =>
    match getValueName M (.array ty es) with
    | none => .error .nullDereference
    | some n => .ok ("ConstantArray: " ++ n ++ ": " ++ P.address (some n) ++ "\n")
  | .pointerNull ty => .ok ("ConstantPointerNull: type=" ++ P.type ty ++ "\n")
  | .tokenNone => (getPointerAlignment P .tokenNone).map fun a =>
      "ConstantTokenNone: operands=0" ++ "\tpointerAlign=" ++ toString a ++ "\n"
  | .undef ty => (getPointerAlignment P (.undef ty)).map fun a =>
      "UndefValue: pointAlign=" ++ toString a ++ "\n"
  | .poison ty => (getPointerAlignment P (.poison ty)).map fun a =>
      "UndefValue: pointAlign=" ++ toString a ++ "\n"
  | .dataArray ty es =>
    .ok ("ConstantDataArray: " ++ P.address (getValueName M (.dataArray ty es)))
  | .struct ty es => .ok ("ConstantStruct: " ++ P.address (getValueName M (.struct ty es)))
  | .expr _ ty _ => .ok ("ConstantExpr: " ++ P.type ty ++ "\n")
  | .global g k _ => .ok (dumpGlobal M g k)
  | .aggregateZero _ | .vector _ _ | .dataVector _ _ | .blockAddress _ _ | .dsoLocalEquivalent _ _
  | .noCFI _ _ => .error (.unreachable "not implemented")

/-- What follows `CONST=` for a constant operand. -/
def dumpOperandConst : Constant → Except Failure String
  | .global g _ _ => .ok (M.globalName g ++ "\n")
  | c => (dumpConst P M c).map fun text => P.constant c ++ "\n" ++ text

/-- One operand, with its index. -/
def dumpOperand : Value × ℕ → Except Failure (List String)
  | (.const c, i) => (dumpOperandConst P M c).map fun text =>
      [" i=" ++ toString i ++ ", CONST=" ++ text]
  | _ => .ok []

/-- One instruction. -/
def dumpInst (F : Function) (I : Instruction) : Except Failure (List String) :=
  (emitAll (dumpOperand P M) I.operands.zipIdx).map fun entries =>
    ("INST:" ++ P.instruction F I ++ "\n") :: entries

/-- **`DumpConsts::runOnModule`**: the entries printed. -/
def runOnModule : Except Failure (List String) :=
  emitAll (fun F => emitAll (fun B => emitAll (dumpInst P M F) B.insts) F.blocks) M.functions

/-! ### The constants that are described -/

/-- The constants `dumpConst` has a description for. -/
def Describable : Constant → Prop
  | .int _ _ | .fp _ _ | .pointerNull _ | .dataArray _ _ | .struct _ _ | .expr _ _ _ | .global _ _ _ =>
    True
  | .undef ty | .poison ty => ty.isPointerTy = true
  | _ => False

variable {P M}

theorem getPointerAlignment_ok_iff {c : Constant} :
    Succeeds (getPointerAlignment P c) ↔ c.getType.isPointerTy = true := by
  rw [getPointerAlignment]
  split
  · rename_i h
    simp [h]
  · rename_i h
    simp [h]

/-- **`dumpConst` gets through exactly the describable constants.** -/
theorem dumpConst_ok_iff (c : Constant) : Succeeds (dumpConst P M c) ↔ Describable c := by
  cases c with
  | undef ty => rw [dumpConst, succeeds_map, getPointerAlignment_ok_iff]; rfl
  | poison ty => rw [dumpConst, succeeds_map, getPointerAlignment_ok_iff]; rfl
  | tokenNone => rw [dumpConst, succeeds_map, getPointerAlignment_ok_iff]; simp [Describable]; rfl
  | _ => simp [dumpConst, Describable, getValueName]

theorem dumpOperandConst_ok_iff (c : Constant) :
    Succeeds (dumpOperandConst P M c) ↔ Describable c := by
  cases c with
  | global g k ty => simp [dumpOperandConst, Describable]
  | _ => rw [dumpOperandConst, succeeds_map, dumpConst_ok_iff]; simp

/-! ### The entries -/

variable (P M)

/-- The description `dumpConst` gives for a constant. -/
def description (c : Constant) : String :=
  match dumpConst P M c with
  | .ok text => text
  | .error _ => ""

/-- The entry of a constant operand: its name when it is a global, otherwise its description. -/
def entry (i : ℕ) : Constant → String
  | .global g _ _ => " i=" ++ toString i ++ ", CONST=" ++ (M.globalName g ++ "\n")
  | c => " i=" ++ toString i ++ ", CONST=" ++ (P.constant c ++ "\n" ++ description P M c)

/-- The entries of the constants among the operands, in operand order. -/
def entries (ops : List Value) : List String :=
  ops.zipIdx.filterMap fun
    | (.const c, i) => some (entry P M i c)
    | _ => none

/-- The entries of a module: one for each constant operand, in instruction and operand order, each
instruction under its own line. -/
def expected : List String :=
  M.functions.flatMap fun F => F.insts.flatMap fun I =>
    ("INST:" ++ P.instruction F I ++ "\n") :: entries P M I.operands

variable {P M}

theorem emitted_dumpOperand {v : Value} {i : ℕ} (h : Succeeds (dumpOperand P M (v, i))) :
    emitted (dumpOperand P M (v, i)) = (match v with
      | .const c => some (entry P M i c)
      | _ => none).toList := by
  cases v with
  | const c =>
    rw [dumpOperand, succeeds_map] at h
    obtain ⟨text, htext⟩ := h
    rw [dumpOperand, htext]
    cases c with
    | global g k ty =>
      cases htext
      rfl
    | _ =>
      rw [dumpOperandConst] at htext
      · cases hd : dumpConst P M _ with
        | error e => rw [hd] at htext; cases htext
        | ok d =>
          rw [hd] at htext
          cases htext
          simp [Except.map, entry, description, hd]
      · simp
  | _ => rfl

/-- An operand is dumped unless it is a constant without description. -/
theorem dumpOperand_ok_iff {q : Value × ℕ} :
    Succeeds (dumpOperand P M q) ↔ ∀ c, .const c = q.1 → Describable c := by
  obtain ⟨v, i⟩ := q
  cases v with
  | const c => simp [dumpOperand, dumpOperandConst_ok_iff]
  | _ => simp [dumpOperand]

/-- An instruction is dumped when its constant operands are describable. -/
theorem dumpInst_ok_iff {F : Function} {I : Instruction} :
    Succeeds (dumpInst P M F I) ↔ ∀ c, .const c ∈ I.operands → Describable c := by
  simp only [dumpInst, succeeds_map, emitAll_ok_iff, dumpOperand_ok_iff]
  rw [forall_mem_zipIdx (p := fun v : Value => ∀ c, .const c = v → Describable c)]
  constructor
  · intro h c hc
    exact h _ hc c rfl
  · intro h v hv c hc
    exact h c (hc ▸ hv)

theorem emitted_dumpInst {F : Function} {I : Instruction} (h : Succeeds (dumpInst P M F I)) :
    emitted (dumpInst P M F I) =
      ("INST:" ++ P.instruction F I ++ "\n") :: entries P M I.operands := by
  rw [dumpInst, succeeds_map] at h
  rw [dumpInst, emitAll_eq h, entries]
  show _ :: _ = _ :: _
  rw [List.filterMap_eq_flatMap_toList]
  refine congrArg (List.cons _) (List.flatMap_congr fun p hp => ?_)
  obtain ⟨v, i⟩ := p
  rw [emitted_dumpOperand (emitAll_ok_iff.mp h (v, i) hp)]
  cases v <;> rfl

theorem runOnModule_eq_expected_iff :
    runOnModule P M = .ok (expected P M) ↔
      ∀ F ∈ M.functions, ∀ I ∈ F.insts, ∀ c, .const c ∈ I.operands → Describable c := by
  have hiff : Succeeds (runOnModule P M) ↔
      ∀ F ∈ M.functions, ∀ I ∈ F.insts, Succeeds (dumpInst P M F I) := by
    simp only [runOnModule, emitAll_ok_iff, Function.insts, List.forall_mem_flatMap]
  constructor
  · intro h F hF I hI
    exact dumpInst_ok_iff.mp (hiff.mp ⟨_, h⟩ F hF I hI)
  · intro h
    have hinst : ∀ F ∈ M.functions, ∀ I ∈ F.insts, Succeeds (dumpInst P M F I) :=
      fun F hF I hI => dumpInst_ok_iff.mpr (h F hF I hI)
    have hrun := hiff.mpr hinst
    rw [runOnModule] at hrun ⊢
    rw [emitAll_eq hrun, expected]
    refine congrArg Except.ok (List.flatMap_congr fun F hF => ?_)
    have hF' := emitAll_ok_iff.mp hrun F hF
    rw [emitted_emitAll hF', Function.insts, List.flatMap_assoc]
    refine List.flatMap_congr fun B hB => ?_
    rw [emitted_emitAll (emitAll_ok_iff.mp hF' B hB)]
    refine List.flatMap_congr fun I hI => ?_
    exact emitted_dumpInst (hinst F hF I (List.mem_flatMap.mpr ⟨B, hB, hI⟩))

/-- **`DumpConsts` completes, with one entry for each constant operand, exactly when every constant operand
is describable**; and `dumpConst` gets through exactly the describable constants. -/
theorem runOnModule_describes_iff (P : Printer) (M : Module) :
    (runOnModule P M = .ok (expected P M) ↔
      ∀ F ∈ M.functions, ∀ I ∈ F.insts, ∀ c, .const c ∈ I.operands → Describable c) ∧
      ∀ c, (∃ text, dumpConst P M c = .ok text) ↔ Describable c :=
  ⟨runOnModule_eq_expected_iff, dumpConst_ok_iff⟩

/-! ### A module that stops the dump -/

/-- `void zero(void) { int a[2] = {0}; }`: the array is cleared by storing a `zeroinitializer`. -/
def zeroArray : Function :=
  ⟨0, "zero", ⟨.void, [], false⟩, .external, ⟨[], []⟩, false, 0, none, none, none, none,
    [⟨0, "entry", [⟨0, .alloca (.array 2 .i32), .pointer (.array 2 .i32) 0, [.const (.int 32 1)], false⟩,
      ⟨1, .store, .void, [.const (.aggregateZero (.array 2 .i32)),
        .inst 0 (.alloca (.array 2 .i32)) (.pointer (.array 2 .i32) 0)], false⟩,
      ⟨2, .ret, .void, [], false⟩]⟩], 3, 1⟩

/-- The module of `zeroArray`. -/
def zeroModule : Module := ⟨[zeroArray], [], [], [], [], 1, 0⟩

/-- A store of a `zeroinitializer` reaches the end of the chain: the dump of a well-formed module does not
complete. -/
theorem runOnModule_zeroModule : zeroModule.WellFormed ∧ ∀ P,
    runOnModule P zeroModule = .error (.unreachable "not implemented") ∧
      runOnModule P zeroModule ≠ .ok (expected P zeroModule) := by
  refine ⟨Module.Verified.wellFormed (by decide), fun P => ⟨rfl, ?_⟩⟩
  intro h
  cases h

end SnippetsLlvm.DumpConsts
