import SnippetsLlvm.PosixMain.WellFormed

/-!
# Every outcome of `posix-main`

A `main` with two parameters is checked and left alone, one without parameters is replaced, and the checks on the way
are assertions and casts.  The checks are made in a fixed order, so that each failure stands for the first check that
a module does not pass.

* `Ends` — the outcomes, each with its condition on the source module;
* `posixizeMain_eq_iff` — **on a well-formed module the pass has exactly these outcomes**.
-/

namespace SnippetsLlvm.PosixMain

open SnippetsLlvm.Ir SnippetsLlvm.Library

/-! ### The outcomes -/

/-- How the checks on the two parameters `argc` and `argv` end. -/
inductive Checked (argc : Ty) : Ty → Except Failure Unit → Prop
  | badArgc {argv} : isIntegerTy argc = false →
      Checked argc argv (.error (.assertFailed "argc->getTypeID() == Type::IntegerTyID"))
  | badArgv {argv} : isIntegerTy argc = true → (∀ elem a, argv ≠ .pointer elem a) →
      Checked argc argv (.error (.castFailed "PointerType"))
  | badPointee {elem a} : isIntegerTy argc = true → (∀ c b, elem ≠ .pointer c b) →
      Checked argc (.pointer elem a) (.error (.castFailed "PointerType"))
  | badElement {c b a} : isIntegerTy argc = true → isIntegerTy c = false →
      Checked argc (.pointer (.pointer c b) a) (.error (.assertFailed "argv_e->getElementType()->isIntegerTy()"))
  | badWidth {w b a} : isIntegerTy argc = true → w ≠ 8 →
      Checked argc (.pointer (.pointer (.integer w) b) a)
        (.error (.assertFailed "cast<IntegerType>(argv_e->getElementType())->getBitWidth() == 8"))
  | passed {b a} : isIntegerTy argc = true → Checked argc (.pointer (.pointer (.integer 8) b) a) (.ok ())

/-- **The outcomes of the pass**: by the parameters of `main`, and by whether it is used. -/
inductive Ends (M : Module) (identifier : String) : Except Failure Outcome → Prop
  | noMain : M.getFunction "main" = none →
      Ends M identifier (.ok ⟨["no main function in " ++ identifier ++ "\n"], false, M⟩)
  | rejected {main argc argv e} : M.getFunction "main" = some main → main.type.params = [argc, argv] →
      Checked argc argv (.error e) → Ends M identifier (.error e)
  | kept {main argc argv} : M.getFunction "main" = some main → main.type.params = [argc, argv] →
      Checked argc argv (.ok ()) → Ends M identifier (.ok ⟨["arg_size == 2, nothing to do\n"], false, M⟩)
  | parameters {main} : M.getFunction "main" = some main → main.type.params ≠ [] → main.type.params.length ≠ 2 →
      Ends M identifier (.error (.assertFailed "main->arg_size() == 0"))
  | used {main} : M.getFunction "main" = some main → main.type.params = [] → ¬ Unused M main →
      Ends M identifier (.error .usesRemain)
  | moved {main} : M.getFunction "main" = some main → main.type.params = [] → Unused M main →
      Ends M identifier (.ok ⟨[], true, replaced M main⟩)

/-! ### The checks -/

theorem getTypeID_integer (ty : Ty) : decide (ty.getTypeID = .integerTyID) = isIntegerTy ty := by
  cases ty with
  | prim p => cases p <;> rfl
  | vector s n elem => cases s <;> rfl
  | _ => rfl

/-- The checks, on a first parameter that passes. -/
theorem checkSignature_argv {argc argv : Ty} (h : isIntegerTy argc = true) :
    checkSignature [argc, argv] = (castPointer argv).bind fun pointed => (castPointer pointed).bind fun elem =>
      (assertThat (isIntegerTy elem) "argv_e->getElementType()->isIntegerTy()").bind fun _ =>
        assertThat (getBitWidth elem = 8)
          "cast<IntegerType>(argv_e->getElementType())->getBitWidth() == 8" := by
  rw [checkSignature, getTypeID_integer, h]
  rfl

theorem castPointer_error {ty : Ty} (h : ∀ elem a, ty ≠ .pointer elem a) :
    castPointer ty = .error (.castFailed "PointerType") := by
  cases ty with
  | pointer elem a => exact absurd rfl (h elem a)
  | _ => rfl

/-- **Each outcome of the checks happens** under its condition. -/
theorem Checked.checkSignature {argc argv : Ty} {r : Except Failure Unit} (h : Checked argc argv r) :
    checkSignature [argc, argv] = r := by
  cases h with
  | badArgc hargc =>
    rw [PosixMain.checkSignature, getTypeID_integer, hargc]
    rfl
  | badArgv hargc hargv =>
    rw [checkSignature_argv hargc, castPointer_error hargv]
    rfl
  | badPointee hargc helem =>
    show PosixMain.checkSignature [argc, .pointer _ _] = _
    rw [checkSignature_argv hargc, castPointer, Except.bind, castPointer_error helem]
    rfl
  | badElement hargc hc =>
    rw [checkSignature_argv hargc, castPointer, Except.bind, castPointer, Except.bind, hc]
    rfl
  | badWidth hargc hw =>
    rw [checkSignature_argv hargc, castPointer, Except.bind, castPointer, Except.bind, isIntegerTy, assertThat,
      if_pos rfl, Except.bind, assertThat, getBitWidth, decide_eq_false hw]
    rfl
  | passed hargc =>
    rw [checkSignature_argv hargc]
    rfl

/-- One of them is met. -/
theorem exists_checked (argc argv : Ty) : ∃ r, Checked argc argv r := by
  cases hargc : isIntegerTy argc with
  | false => exact ⟨_, .badArgc hargc⟩
  | true =>
    by_cases hargv : ∃ elem a, argv = .pointer elem a
    · obtain ⟨elem, a, rfl⟩ := hargv
      by_cases helem : ∃ c b, elem = .pointer c b
      · obtain ⟨c, b, rfl⟩ := helem
        cases hc : isIntegerTy c with
        | false => exact ⟨_, .badElement hargc hc⟩
        | true =>
          cases c with
          | integer w =>
            by_cases hw : w = 8
            · subst hw
              exact ⟨_, .passed hargc⟩
            · exact ⟨_, .badWidth hargc hw⟩
          | _ => cases hc
      · refine ⟨_, .badPointee hargc fun c b heq => helem ⟨c, b, heq⟩⟩
    · exact ⟨_, .badArgv hargc fun elem a heq => hargv ⟨elem, a, heq⟩⟩

/-! ### The pass -/

/-- The branch for a `main` with two parameters. -/
theorem posixizeMain_pair {M : Module} {main : Function} {argc argv : Ty} (hmain : M.getFunction "main" = some main)
    (hparams : main.type.params = [argc, argv]) (identifier : String) :
    posixizeMain M identifier =
      (checkSignature [argc, argv]).map fun _ => ⟨["arg_size == 2, nothing to do\n"], false, M⟩ := by
  simp only [posixizeMain, hmain, hparams]
  rfl

section Pass

variable {M : Module} (hM : M.WellFormed)
include hM

/-- **Each outcome happens** under its condition. -/
theorem Ends.posixizeMain {identifier : String} {r : Except Failure Outcome} (h : Ends M identifier r) :
    posixizeMain M identifier = r := by
  cases h with
  | noMain hmain => rw [PosixMain.posixizeMain, hmain]
  | rejected hmain hparams hchecked =>
    rw [posixizeMain_pair hmain hparams, hchecked.checkSignature]
    rfl
  | kept hmain hparams hchecked =>
    rw [posixizeMain_pair hmain hparams, hchecked.checkSignature]
    rfl
  | @parameters main hmain hsome htwo =>
    have hzero : ¬ main.type.params.length = 0 := fun hlen => hsome (List.length_eq_zero_iff.mp hlen)
    rw [PosixMain.posixizeMain, hmain]
    show (if main.type.params.length = 2 then _ else replaceMain M main) = _
    rw [if_neg htwo, replaceMain, decide_eq_false hzero]
    rfl
  | used hmain hparams hused =>
    have huses := mt (hasUses_replaced hM hmain).mp hused
    rw [posixizeMain_eq hmain hparams, replaceMain_eq hM hmain hparams, if_pos (by simpa using huses)]
  | moved hmain hparams hunused =>
    rw [posixizeMain_eq hmain hparams, replaceMain_eq hM hmain hparams, (hasUses_replaced hM hmain).mpr hunused]
    rfl

omit hM in
/-- **One of the outcomes is met.** -/
theorem exists_ends (M : Module) (identifier : String) : ∃ r, Ends M identifier r := by
  cases hmain : M.getFunction "main" with
  | none => exact ⟨_, .noMain hmain⟩
  | some main =>
    rcases hparams : main.type.params with _ | ⟨argc, _ | ⟨argv, _ | ⟨third, rest⟩⟩⟩
    · by_cases hunused : Unused M main
      · exact ⟨_, .moved hmain hparams hunused⟩
      · exact ⟨_, .used hmain hparams hunused⟩
    · exact ⟨_, .parameters hmain (by rw [hparams]; simp) (by rw [hparams]; simp)⟩
    · obtain ⟨r, hr⟩ := exists_checked argc argv
      cases r with
      | ok u => exact ⟨_, .kept hmain hparams hr⟩
      | error e => exact ⟨_, .rejected hmain hparams hr⟩
    · exact ⟨_, .parameters hmain (by rw [hparams]; simp) (by rw [hparams]; simp)⟩

end Pass

/-- **The outcomes of `posix-main` on a well-formed module** are exactly these, each under its condition on the
parameters of `main` and on its uses. -/
theorem posixizeMain_eq_iff {M : Module} (hM : M.WellFormed) (identifier : String) (r : Except Failure Outcome) :
    posixizeMain M identifier = r ↔ Ends M identifier r := by
  constructor
  · intro h
    obtain ⟨r', hr'⟩ := exists_ends M identifier
    rw [hr'.posixizeMain hM] at h
    rwa [← h]
  · intro h
    exact h.posixizeMain hM

/-- `int main(int argc, char *argv)`: two parameters, the second of them a pointer to no pointer. -/
def thinMain : Function :=
  ⟨0, "main", ⟨.i32, [.i32, .i8Ptr], false⟩, .external, ⟨[], []⟩, false, 0, none, none, none, none,
    [⟨0, "entry", [⟨0, .ret, .void, [.const (.int 32 0)], false⟩]⟩], 1, 1⟩

def thinModule : Module := ⟨[thinMain], [], [], [], [], 1, 0⟩

theorem posixizeMain_thinModule : posixizeMain thinModule "thin" = .error (.castFailed "PointerType") :=
  (posixizeMain_eq_iff (Module.Verified.wellFormed (by decide)) "thin" _).mpr
    (.rejected rfl rfl (.badPointee rfl nofun))

end SnippetsLlvm.PosixMain
