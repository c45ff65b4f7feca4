import SnippetsLlvm.Ir.Module

/-!
# Printing

The dump tools print instructions, constants and types through the compiler's own printers.  Those are a
parameter, `Printer`; what the tools add to them, and where they fail, is modelled.
-/

namespace SnippetsLlvm.Ir

/-- What the compiler prints, and what it alone knows. -/
structure Printer where
  /-- `operator<<` on an instruction of a function -/
  instruction : Function → Instruction → String
  /-- `Value::print` on an operand in a function -/
  value : Function → Value → String
  /-- `operator<<` on a constant -/
  constant : Constant → String
  /-- `Type::print` -/
  type : Ty → String
  /-- `APFloat::print` -/
  float : Ty → ℕ → String
  /-- the address of a symbol table entry, or of none -/
  address : Option String → String
  /-- `DataLayout::getTypeSizeInBits` -/
  sizeInBits : Ty → ℕ
  /-- `Value::getPointerAlignment` of a pointer constant -/
  pointerAlignment : Constant → ℕ
  /-- `GlobalValue::isMaterializable` -/
  isMaterializable : Function → Bool

/-- The name of the global with the given identity. -/
def Module.globalName (M : Module) (g : ℕ) : String :=
  ((M.globalValues.find? (·.id = g)).map GlobalValue.name).getD ""

end SnippetsLlvm.Ir
