import Mathlib.Data.Set.Finite.Basic
import Mathlib.Logic.Relation
import Mathlib.Order.WellFounded

/-!
# Descent in finite acyclic relations

A recursion along a relation ends where the relation has no cycle and only finitely many elements can be
reached.  The relation is over any type.

* `acc_of_acyclic` — an element from which no cycle can be reached is accessible.
-/

namespace SnippetsLlvm.Library

variable {V : Type*}

/-- **No infinite descent** from an element of a finite closed set from which no cycle can be reached. -/
theorem acc_of_acyclic {R : V → V → Prop} {A : Set V} (hA : A.Finite)
    (hclosed : ∀ a ∈ A, ∀ b, R a b → b ∈ A) {a : V} (ha : a ∈ A)
    (hacyclic : ∀ b, Relation.ReflTransGen R a b → ¬ Relation.TransGen R b b) :
    Acc (fun y x => R x y) a := by
  -- the elements that can be reached, with the transitive closure as a strict order
  let W := {b : V // b ∈ A ∧ Relation.ReflTransGen R a b}
  let r : W → W → Prop := fun y x => Relation.TransGen R x.1 y.1
  have : Finite W := (hA.subset fun b hb => hb.1 : Set.Finite {b | b ∈ A ∧ Relation.ReflTransGen R a b})
  have : IsTrans W r := ⟨fun _ _ _ h₁ h₂ => h₂.trans h₁⟩
  have : Std.Irrefl r := ⟨fun x h => hacyclic x.1 x.2.2 h⟩
  have hwf : WellFounded r := Finite.wellFounded_of_trans_of_irrefl r
  have hacc : ∀ w : W, Acc (fun y x => R x y) w.1 := by
    intro w
    induction w using hwf.induction with
    | _ w ih =>
      refine ⟨_, fun b hb => ?_⟩
      exact ih ⟨b, hclosed w.1 w.2.1 b hb, w.2.2.tail hb⟩ (.single hb)
  exact hacc ⟨a, ha, .refl⟩

end SnippetsLlvm.Library
