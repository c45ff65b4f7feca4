import SnippetsLlvm.Ir.WellFormed
import SnippetsLlvm.Library.Emission

/-!
# The `posix-main` pass

`PrepareFunc::POSIXizeMain` turns `int main()` into `int main(int, char **)`: the old function is renamed, a
function of the new type is created under the freed name, gets the linkage and the attributes of the old
one, and takes over its blocks; the old function is then destroyed.  A `main` that has two parameters
already is only checked.

`eraseFromParent` is where the compiler insists that a destroyed value has no uses left.
-/

namespace SnippetsLlvm.PosixMain

open SnippetsLlvm.Ir SnippetsLlvm.Library

/-- `TypeBuilder<int(int, char **)>`. -/
def mainTy : FunctionType := ⟨.i32, [.i32, .pointer .i8Ptr 0], false⟩

/-- `assert`. -/
def assertThat (b : Bool) (message : String) : Except Failure Unit :=
  if b then .ok () else .error (.assertFailed message)

/-- `cast<PointerType>` and the type pointed to. -/
def castPointer : Ty → Except Failure Ty
  | .pointer elem _ => .ok elem
  | _ => .error (.castFailed "PointerType")

/-- `utils::getPointedType` of a type. -/
def getPointedType (T : Ty) : Except Failure Ty := castPointer T

/-- `Type::isIntegerTy`. -/
def isIntegerTy : Ty → Bool
  | .integer _ => true
  | _ => false

/-- `IntegerType::getBitWidth`. -/
def getBitWidth : Ty → ℕ
  | .integer bits => bits
  | _ => 0

/-- Whether an object of the module uses the global `g`: an operand of an instruction, a personality, an
initializer, an aliasee or a resolver. -/
def hasUses (M : Module) (g : ℕ) : Bool :=
  M.functions.any (fun F => F.insts.any (·.mentions g) || F.personality.any (·.mentions g)) ||
    M.globals.any (fun G => G.initializer.any (·.mentions g)) ||
    M.aliases.any (fun A => A.aliasee.mentions g) || M.ifuncs.any fun I => I.resolver.mentions g

/-- `Function::eraseFromParent`: the function drops its own references, and must have no uses then. -/
def eraseFromParent (M : Module) (g : ℕ) : Except Failure Module :=
  if hasUses (M.eraseFunction g) g then .error .usesRemain else .ok (M.eraseFunction g)

/-- `newMain->getBasicBlockList().splice(newMain->begin(), main->getBasicBlockList())`: all blocks of the
function `src` go in front of those of the function `dst`, with the identities drawn for them. -/
def spliceBlocks (M : Module) (dst : ℕ) (src : Function) : Module :=
  (M.modifyFunction dst fun F => { F with blocks := src.blocks ++ F.blocks,
                                          nextValue := src.nextValue, nextBlock := src.nextBlock })
    |>.modifyFunction src.id fun F => { F with blocks := [] }

/-- What the pass leaves: the text printed, the value returned and the module. -/
structure Outcome where
  output : List String
  changed : Bool
  module : Module

/-- The checks on a `main` that has two parameters. -/
def checkSignature (params : List Ty) : Except Failure Unit :=
  match params with
  | [argc, argv] =>
    (assertThat (argc.getTypeID = .integerTyID) "argc->getTypeID() == Type::IntegerTyID").bind fun _ =>
      (getPointedType argv).bind fun pointed => (castPointer pointed).bind fun elem =>
        (assertThat (isIntegerTy elem) "argv_e->getElementType()->isIntegerTy()").bind fun _ =>
          assertThat (getBitWidth elem = 8)
            "cast<IntegerType>(argv_e->getElementType())->getBitWidth() == 8"
  | _ => .ok ()

/-- The branch for a `main` without parameters, from the assertion on. -/
def replaceMain (M : Module) (main : Function) : Except Failure Outcome :=
  (assertThat (main.type.params.length = 0) "main->arg_size() == 0").bind fun _ =>
    let renamed := M.setFunctionName main.id "old_main"
    let created := renamed.addFunction mainTy main.linkage "main" ⟨[], []⟩
    let attributed := created.1.modifyFunction created.2.id fun F =>
      { F with attributes := main.attributes }
    (eraseFromParent (spliceBlocks attributed created.2.id main) main.id).map fun M' => ⟨[], true, M'⟩

/-- **`PrepareFunc::POSIXizeMain`.** -/
def posixizeMain (M : Module) (identifier : String) : Except Failure Outcome :=
  match M.getFunction "main" with
  | none => .ok ⟨["no main function in " ++ identifier ++ "\n"], false, M⟩
  | some main =>
    if main.type.params.length = 2 then
      (checkSignature main.type.params).map fun _ =>
        ⟨["arg_size == 2, nothing to do\n"], false, M⟩
    else replaceMain M main

end SnippetsLlvm.PosixMain
