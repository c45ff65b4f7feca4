import Mathlib.Logic.Relation
import Mathlib.Data.Finset.Insert

/-!
# Paths that avoid a set of vertices

A depth-first search that carries a set of visited vertices looks for a path whose vertices, the first one
apart, lie outside the set.  Such a path is a chain of the edge relation restricted to edges with their
target outside; the relation is over any type of vertices.

* `avoiding` — the restricted edge relation;
* `cut` — a path may be cut at the last visit to its first vertex, so the first vertex may be added to the
  set;
* `transGen_avoiding_iff` — one step of the search;
* `transGen_iff_list` — the vertices of a path as a list;
* `transGen_map` — paths in a subtype are paths between the underlying vertices.
-/

namespace SnippetsLlvm.Library

variable {V : Type*}

/-- The edges whose target lies outside `A`. -/
def avoiding (E : V → V → Prop) (A : Set V) (a b : V) : Prop := E a b ∧ b ∉ A

/-- A larger set leaves fewer edges. -/
theorem avoiding_anti {E : V → V → Prop} {A A' : Set V} (h : A ⊆ A') {a b : V}
    (hab : avoiding E A' a b) : avoiding E A a b := by
  refine ⟨hab.1, ?_⟩
  intro hb
  exact hab.2 (h hb)

theorem transGen_avoiding_anti {E : V → V → Prop} {A A' : Set V} (h : A ⊆ A') {a b : V}
    (hab : Relation.TransGen (avoiding E A') a b) : Relation.TransGen (avoiding E A) a b :=
  Relation.TransGen.mono (fun _ _ => avoiding_anti h) a b hab

theorem reflTransGen_avoiding_anti {E : V → V → Prop} {A A' : Set V} (h : A ⊆ A') {a b : V}
    (hab : Relation.ReflTransGen (avoiding E A') a b) : Relation.ReflTransGen (avoiding E A) a b :=
  Relation.ReflTransGen.mono (fun _ _ => avoiding_anti h) a b hab

/-- **Cutting a path** at the last visit to its first vertex: what remains avoids that vertex too. -/
theorem cut {E : V → V → Prop} {A : Set V} {a b : V}
    (h : Relation.ReflTransGen (avoiding E A) a b) :
    a = b ∨ Relation.TransGen (avoiding E (insert a A)) a b := by
  induction h with
  | refl => exact .inl rfl
  | @tail c b _ hcb ih =>
    by_cases hab : a = b
    · exact .inl hab
    · have hedge : avoiding E (insert a A) c b := by
        refine ⟨hcb.1, ?_⟩
        intro hb
        rcases Set.mem_insert_iff.mp hb with hba | hb
        · exact hab hba.symm
        · exact hcb.2 hb
      rcases ih with rfl | hac
      · exact .inr (.single hedge)
      · exact .inr (hac.tail hedge)

/-- **One step of the search**: a path that avoids `A` goes to a vertex outside `A`, where it ends or
goes on avoiding that vertex as well. -/
theorem transGen_avoiding_iff {E : V → V → Prop} {A : Set V} {a b : V} :
    Relation.TransGen (avoiding E A) a b ↔
      ∃ p, E a p ∧ p ∉ A ∧ (p = b ∨ Relation.TransGen (avoiding E (insert p A)) p b) := by
  rw [Relation.TransGen.head'_iff]
  constructor
  · rintro ⟨p, ⟨hE, hp⟩, hpb⟩
    exact ⟨p, hE, hp, cut hpb⟩
  · rintro ⟨p, hE, hp, hpb⟩
    refine ⟨p, ⟨hE, hp⟩, ?_⟩
    rcases hpb with rfl | hpb
    · exact .refl
    · exact (transGen_avoiding_anti (Set.subset_insert p A) hpb).to_reflTransGen

/-- Between different vertices, avoiding the first one costs no path. -/
theorem transGen_avoiding_self {E : V → V → Prop} {a b : V} (hab : a ≠ b) :
    Relation.TransGen (avoiding E {a}) a b ↔ Relation.TransGen E a b := by
  constructor
  · exact Relation.TransGen.mono (fun _ _ hxy => hxy.1) a b
  · intro h
    have hfree : Relation.TransGen (avoiding E ∅) a b :=
      Relation.TransGen.mono (fun _ _ hxy => ⟨hxy, Set.notMem_empty _⟩) a b h
    have hcut := (cut hfree.to_reflTransGen).resolve_left hab
    rwa [insert_empty_eq] at hcut

/-! ### Paths as lists, and between the elements of a subtype -/

/-- **A path is the list of its vertices** after the first one. -/
theorem transGen_iff_list {R : V → V → Prop} {a b : V} :
    Relation.TransGen R a b ↔ ∃ xs, xs ≠ [] ∧ List.IsChain R (a :: xs) ∧ xs.getLast? = some b := by
  constructor
  · intro h
    induction h using Relation.TransGen.head_induction_on with
    | single hab => exact ⟨[b], by simp, by simpa using hab, rfl⟩
    | @head a c hac _ ih =>
      obtain ⟨xs, -, hchain, hlast⟩ := ih
      refine ⟨c :: xs, by simp, hchain.cons_cons hac, ?_⟩
      rw [List.getLast?_cons, hlast, Option.getD_some]
  · rintro ⟨xs, hne, hchain, hlast⟩
    induction xs generalizing a with
    | nil => exact absurd rfl hne
    | cons x xs ih =>
      obtain ⟨hax, hchain⟩ := List.isChain_cons_cons.mp hchain
      cases xs with
      | nil =>
        cases hlast
        exact .single hax
      | cons y ys =>
        rw [List.getLast?_cons_cons] at hlast
        exact .head hax (ih (by simp) hchain hlast)

/-- A chain of edges with targets outside `A` is a chain of edges whose vertices, the first one apart, lie
outside `A`. -/
theorem isChain_avoiding {E : V → V → Prop} {A : Set V} {a : V} {xs : List V} :
    List.IsChain (avoiding E A) (a :: xs) ↔ List.IsChain E (a :: xs) ∧ ∀ x ∈ xs, x ∉ A := by
  induction xs generalizing a with
  | nil => simp
  | cons x xs ih =>
    rw [List.isChain_cons_cons, List.isChain_cons_cons, ih, List.forall_mem_cons, avoiding]
    tauto

/-- Paths in a subtype that edges do not leave are paths between the underlying vertices. -/
theorem transGen_map {p : V → Prop} {R : {a // p a} → {a // p a} → Prop} {R' : V → V → Prop}
    (hR : ∀ a b, R a b ↔ R' a.1 b.1) (hclosed : ∀ a b, R' a b → p b) (a b : {a // p a}) :
    Relation.TransGen R a b ↔ Relation.TransGen R' a.1 b.1 := by
  constructor
  · intro h
    induction h with
    | single h => exact .single ((hR _ _).mp h)
    | tail _ h ih => exact ih.tail ((hR _ _).mp h)
  · intro h
    have hlift : ∀ {c}, Relation.TransGen R' a.1 c → ∀ hc : p c, Relation.TransGen R a ⟨c, hc⟩ := by
      intro c h
      induction h with
      | single h => exact fun hc => .single ((hR _ _).mpr h)
      | @tail c d hac h ih =>
        intro hd
        have hc : p c := by
          rcases Relation.TransGen.tail'_iff.mp hac with ⟨e, -, hec⟩
          exact hclosed e c hec
        exact (ih hc).tail ((hR ⟨c, hc⟩ ⟨d, hd⟩).mpr h)
    exact hlift h b.2

end SnippetsLlvm.Library
