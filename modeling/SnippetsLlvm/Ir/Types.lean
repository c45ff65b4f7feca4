import Mathlib.Data.List.Basic
import Mathlib.Data.Int.Notation
import Mathlib.Data.Nat.Notation

/-!
# The typed-pointer type system of the IR

The passes of this repository are written against an LLVM whose pointers still carry the type they
point to.  `Ty` is that type language: the primitive kinds, integers of any width, function types,
pointers with an address space, literal and identified structs, arrays and both kinds of vectors.
Identified structs are named, so that a struct may mention itself through a pointer; their bodies live
in the module.

* `TypeID` — the enumeration `Type::TypeID` that `getTypeStr` switches on;
* `FunctionType` — the return type, the parameter types and the vararg flag of a function;
* `AttributeList` — the attributes of a function and of its return value.
-/

namespace SnippetsLlvm.Ir

/-- The types without components. -/
inductive Prim where
  | half | bfloat | float | double | x86Fp80 | fp128 | ppcFp128
  | void | label | metadata | x86Mmx | x86Amx | token
deriving DecidableEq, Repr

/-- A type of the IR. -/
inductive Ty where
  | prim (p : Prim)
  | integer (bits : ℕ)
  | function (ret : Ty) (params : List Ty) (isVarArg : Bool)
  | pointer (elem : Ty) (addrSpace : ℕ)
  | struct (elems : List Ty)
  | identified (name : String)
  | array (n : ℕ) (elem : Ty)
  | vector (scalable : Bool) (n : ℕ) (elem : Ty)
deriving Repr

/-! ### Decidable equality -/

mutual
/-- Structural equality of types. -/
def Ty.beq : Ty → Ty → Bool
  | .prim p, .prim q => p == q
  | .integer m, .integer n => m == n
  | .function r ps v, .function r' ps' v' => r.beq r' && Ty.beqList ps ps' && v == v'
  | .pointer e a, .pointer e' a' => e.beq e' && a == a'
  | .struct es, .struct es' => Ty.beqList es es'
  | .identified n, .identified n' => n == n'
  | .array n e, .array n' e' => n == n' && e.beq e'
  | .vector s n e, .vector s' n' e' => s == s' && n == n' && e.beq e'
  | _, _ => false
/-- Structural equality of lists of types. -/
def Ty.beqList : List Ty → List Ty → Bool
  | [], [] => true
  | a :: as, b :: bs => a.beq b && Ty.beqList as bs
  | _, _ => false
end

mutual
theorem Ty.beq_iff (a b : Ty) : a.beq b = true ↔ a = b := by
  cases a <;> cases b <;>
    simp [Ty.beq, Ty.beq_iff, Ty.beqList_iff, and_assoc]
theorem Ty.beqList_iff (as bs : List Ty) : Ty.beqList as bs = true ↔ as = bs := by
  cases as <;> cases bs <;> simp [Ty.beqList, Ty.beq_iff, Ty.beqList_iff]
end

instance : DecidableEq Ty := fun a b => decidable_of_iff _ (Ty.beq_iff a b)

/-! ### The type identifiers -/

/-- `Type::TypeID`. -/
inductive TypeID where
  | halfTyID | bfloatTyID | floatTyID | doubleTyID | x86Fp80TyID | fp128TyID | ppcFp128TyID
  | voidTyID | labelTyID | metadataTyID | x86MmxTyID | x86AmxTyID | tokenTyID
  | integerTyID | functionTyID | pointerTyID | structTyID | arrayTyID
  | fixedVectorTyID | scalableVectorTyID
deriving DecidableEq, Repr

/-- `Type::getTypeID`. -/
def Ty.getTypeID : Ty → TypeID
  | .prim .half => .halfTyID
  | .prim .bfloat => .bfloatTyID
  | .prim .float => .floatTyID
  | .prim .double => .doubleTyID
  | .prim .x86Fp80 => .x86Fp80TyID
  | .prim .fp128 => .fp128TyID
  | .prim .ppcFp128 => .ppcFp128TyID
  | .prim .void => .voidTyID
  | .prim .label => .labelTyID
  | .prim .metadata => .metadataTyID
  | .prim .x86Mmx => .x86MmxTyID
  | .prim .x86Amx => .x86AmxTyID
  | .prim .token => .tokenTyID
  | .integer _ => .integerTyID
  | .function _ _ _ => .functionTyID
  | .pointer _ _ => .pointerTyID
  | .struct _ => .structTyID
  | .identified _ => .structTyID
  | .array _ _ => .arrayTyID
  | .vector false _ _ => .fixedVectorTyID
  | .vector true _ _ => .scalableVectorTyID

/-! ### Abbreviations and function types -/

/-- `void`. -/
abbrev Ty.void : Ty := .prim .void

/-- The 64-bit integer type of the block counter. -/
abbrev Ty.i64 : Ty := .integer 64

/-- The 32-bit integer type, the C `int`. -/
abbrev Ty.i32 : Ty := .integer 32

/-- `char *`. -/
abbrev Ty.i8Ptr : Ty := .pointer (.integer 8) 0

/-- `Type::isPointerTy`. -/
def Ty.isPointerTy : Ty → Bool
  | .pointer _ _ => true
  | _ => false

/-- `Type::isPtrOrPtrVectorTy`. -/
def Ty.isPtrOrPtrVectorTy : Ty → Bool
  | .pointer _ _ | .vector _ _ (.pointer _ _) => true
  | _ => false

/-- The type a pointer points to. -/
def Ty.pointee : Ty → Option Ty
  | .pointer t _ => some t
  | _ => none

/-- The components of a function type. -/
structure FunctionType where
  ret : Ty
  params : List Ty
  isVarArg : Bool
deriving DecidableEq, Repr

/-- A function type as a type. -/
def FunctionType.toTy (ft : FunctionType) : Ty := .function ft.ret ft.params ft.isVarArg

/-- The type of a pointer to a function of this type, in the default address space. -/
def FunctionType.ptrTy (ft : FunctionType) : Ty := .pointer ft.toTy 0

/-- The attributes of a return value. -/
inductive RetAttribute where
  | signExt | zeroExt | noAlias | nonNull | noUndef | inReg
  | align (bytes : ℕ) | dereferenceable (bytes : ℕ) | dereferenceableOrNull (bytes : ℕ)
  | string (key value : String)
deriving DecidableEq, Repr

/-- Whether the attribute may stand on a value of type `t`: what `AttributeFuncs::typeIncompatible` leaves. -/
def RetAttribute.fits (t : Ty) : RetAttribute → Bool
  | .signExt | .zeroExt => t.getTypeID = .integerTyID
  | .noAlias | .nonNull | .dereferenceable _ | .dereferenceableOrNull _ => t.isPointerTy
  | .align _ => t.isPtrOrPtrVectorTy
  | .noUndef => t ≠ .void
  | .inReg | .string _ _ => true

/-- `AttributeList` of a function without parameter attributes: the attributes of the function, and those of
its return value. -/
structure AttributeList where
  fn : List String
  ret : List RetAttribute
deriving DecidableEq, Repr

/-- What the verifier asks of the attributes of a function with the given return type and address mark. -/
structure AttributeList.Fits (A : AttributeList) (ret : Ty) (unnamedAddr : Bool) : Prop where
  ret : ∀ a ∈ A.ret, a.fits ret = true
  jumpTable : "jumptable" ∈ A.fn → unnamedAddr = true

instance (A : AttributeList) (ret : Ty) (unnamedAddr : Bool) : Decidable (A.Fits ret unnamedAddr) :=
  decidable_of_iff ((∀ a ∈ A.ret, a.fits ret = true) ∧ ("jumptable" ∈ A.fn → unnamedAddr = true))
    ⟨fun h => ⟨h.1, h.2⟩, fun h => ⟨h.1, h.2⟩⟩

theorem FunctionType.toTy_inj {ft ft' : FunctionType} : ft.toTy = ft'.toTy ↔ ft = ft' := by
  cases ft
  cases ft'
  simp [toTy]

end SnippetsLlvm.Ir
