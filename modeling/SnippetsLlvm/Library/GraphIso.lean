import SnippetsLlvm.Library.NaturalLoops
import Mathlib.Order.RelIso.Basic

/-!
# Graphs with the same shape

An isomorphism of two graphs carries paths to paths, and with them everything that is said in terms of paths:
the paths that avoid a set, dominance, and the natural loops.

* `transGen_iso`, `reflTransGen_iso` — paths, and `avoidingIso` for those that avoid a set;
* `dominates_iso`, `latch_iso`, `loopBody_iso` — **dominance and the natural loops**.
-/

namespace SnippetsLlvm.Library

variable {V W : Type*} {E : V → V → Prop} {E' : W → W → Prop} (f : E ≃r E')

/-! ### Paths -/

theorem transGen_iso {a b : V} : Relation.TransGen E' (f a) (f b) ↔ Relation.TransGen E a b := by
  constructor
  · intro h
    have hback : Relation.TransGen E (f.symm (f a)) (f.symm (f b)) :=
      Relation.TransGen.lift f.symm (fun _ _ hxy => f.symm.map_rel_iff.mpr hxy) _ _ h
    rwa [f.symm_apply_apply, f.symm_apply_apply] at hback
  · intro h
    exact Relation.TransGen.lift f (fun _ _ hxy => f.map_rel_iff.mpr hxy) _ _ h

theorem reflTransGen_iso {a b : V} : Relation.ReflTransGen E' (f a) (f b) ↔ Relation.ReflTransGen E a b := by
  rw [Relation.reflTransGen_iff_eq_or_transGen, Relation.reflTransGen_iff_eq_or_transGen, transGen_iso,
    f.injective.eq_iff]

/-- The edges that avoid a set correspond to those that avoid its image. -/
def avoidingIso (A : Set V) : avoiding E A ≃r avoiding E' (f '' A) where
  toEquiv := f.toEquiv
  map_rel_iff' := by
    intro a b
    show E' (f a) (f b) ∧ f b ∉ f '' A ↔ E a b ∧ b ∉ A
    rw [f.map_rel_iff, f.injective.mem_set_image]

theorem reflTransGen_avoiding_iso {x a b : V} :
    Relation.ReflTransGen (avoiding E' {f x}) (f a) (f b) ↔ Relation.ReflTransGen (avoiding E {x}) a b := by
  rw [← Set.image_singleton]
  exact reflTransGen_iso (avoidingIso f {x})

/-! ### Dominance and loops -/

variable {r h b l : V}

theorem dominates_iso : Dominates E' (f r) (f h) (f b) ↔ Dominates E r h b := by
  rw [Dominates, Dominates, reflTransGen_avoiding_iso, f.injective.eq_iff]

theorem latch_iso : Latch E' (f r) (f h) (f l) ↔ Latch E r h l := by
  constructor
  · rintro ⟨hedge, hdom, hreached⟩
    exact ⟨f.map_rel_iff.mp hedge, (dominates_iso f).mp hdom, (reflTransGen_iso f).mp hreached⟩
  · rintro ⟨hedge, hdom, hreached⟩
    exact ⟨f.map_rel_iff.mpr hedge, (dominates_iso f).mpr hdom, (reflTransGen_iso f).mpr hreached⟩

/-- The latches of a header, on either side. -/
theorem exists_latch_iso (r h : V) {p : V → Prop} {q : W → Prop} (hp : ∀ l, q (f l) ↔ p l) :
    (∃ l, Latch E' (f r) (f h) l ∧ q l) ↔ ∃ l, Latch E r h l ∧ p l := by
  rw [f.surjective.exists]
  refine exists_congr fun l => ?_
  rw [latch_iso, hp]

/-- **The natural loops of two graphs of the same shape** correspond. -/
theorem loopBody_iso : LoopBody E' (f r) (f h) (f b) ↔ LoopBody E r h b := by
  have hlatched : (∃ l, Latch E' (f r) (f h) l) ↔ ∃ l, Latch E r h l := by
    simpa using exists_latch_iso f r h (p := fun _ => True) (q := fun _ => True) fun _ => Iff.rfl
  have haround := exists_latch_iso f r h
    (p := fun l => Relation.ReflTransGen (avoiding E {h}) b l)
    (q := fun l => Relation.ReflTransGen (avoiding E' {f h}) (f b) l) fun _ => reflTransGen_avoiding_iso f
  constructor
  · rintro ⟨hlatch, hreached, hback⟩
    refine ⟨hlatched.mp hlatch, (reflTransGen_iso f).mp hreached, ?_⟩
    exact hback.imp f.injective.eq_iff.mp haround.mp
  · rintro ⟨hlatch, hreached, hback⟩
    refine ⟨hlatched.mpr hlatch, (reflTransGen_iso f).mpr hreached, ?_⟩
    exact hback.imp f.injective.eq_iff.mpr haround.mpr

end SnippetsLlvm.Library
