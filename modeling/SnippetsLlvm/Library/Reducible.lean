import SnippetsLlvm.Library.NaturalLoops
import Mathlib.Data.Fintype.Card
import Mathlib.Order.WellFounded

/-!
# Reducible graphs

A control-flow graph is reducible when what is left of it without the edges to dominators has no cycle.  In such
a graph the natural loops account for all cycles: of the vertices that reach each other, the first one in the
order of the remaining edges dominates the others, and the edges to it from among them close a loop around them.

* `Reducible` — no cycle without an edge to a dominator;
* `exists_first` — the first of a set of reached vertices;
* `common_loop_iff` — **two vertices reach each other exactly when a natural loop contains both**.
-/

namespace SnippetsLlvm.Library

variable {V : Type*} {E : V → V → Prop} {r : V}

/-- An edge that does not go to a dominator of its source. -/
def Forward (E : V → V → Prop) (r a b : V) : Prop := E a b ∧ ¬ Dominates E r b a

/-- Without the edges to dominators, no reached vertex is on a cycle. -/
def Reducible (E : V → V → Prop) (r : V) : Prop :=
  ∀ b, Relation.ReflTransGen E r b → ¬ Relation.TransGen (Forward E r) b b

/-- A path up to the first visit to its end. -/
theorem first_arrival {a h : V} (hah : Relation.TransGen E a h) :
    ∃ l, Relation.ReflTransGen (avoiding E {h}) a l ∧ E l h := by
  induction hah using Relation.TransGen.head_induction_on with
  | @single a hah => exact ⟨a, .refl, hah⟩
  | @head a c hac _ ih =>
    by_cases hc : c = h
    · subst hc
      exact ⟨a, .refl, hac⟩
    · obtain ⟨l, hcl, hlh⟩ := ih
      exact ⟨l, .head ⟨hac, hc⟩ hcl, hlh⟩

/-! ### The cycles of a loop -/

theorem Latch.loopBody {h l : V} (hl : Latch E r h l) : LoopBody E r h l :=
  ⟨⟨l, hl⟩, hl.reached, .inr ⟨l, hl, .refl⟩⟩

/-- **One can go around**: from any vertex of a loop to any other one, the same one included. -/
theorem LoopBody.transGen {h a b : V} (ha : LoopBody E r h a) (hb : LoopBody E r h b) : Relation.TransGen E a b := by
  obtain ⟨l, hl⟩ := ha.latched
  have hpath : ∀ {x y}, LoopBody E r h x → LoopBody E r h y → Relation.ReflTransGen E x y := by
    intro x y hx hy
    exact Relation.ReflTransGen.mono (fun _ _ hxy => hxy.1) x y (hx.path hy)
  have hhead : Relation.TransGen E a h := .tail' (hpath ha hl.loopBody) hl.edge
  exact hhead.trans_left (hpath ha.header hb)

/-! ### The loop of a cycle -/

/-- **The first of a set of reached vertices**: no other one comes before it. -/
theorem exists_first [Finite V] (hred : Reducible E r) {S : Set V} (hS : ∀ s ∈ S, Relation.ReflTransGen E r s)
    (hne : S.Nonempty) : ∃ h ∈ S, ∀ s ∈ S, ¬ Relation.TransGen (Forward E r) s h := by
  let before (x y : V) : Prop := Relation.ReflTransGen E r x ∧ Relation.TransGen (Forward E r) x y
  have : IsTrans V before := ⟨fun _ _ _ hxy hyz => ⟨hxy.1, hxy.2.trans hyz.2⟩⟩
  have : Std.Irrefl before := ⟨fun x hx => hred x hx.1 hx.2⟩
  have hwf : WellFounded before := Finite.wellFounded_of_trans_of_irrefl before
  obtain ⟨h, hh, hmin⟩ := hwf.has_min S hne
  exact ⟨h, hh, fun s hs hsh => hmin s hs ⟨hS s hs, hsh⟩⟩

/-- **Two reached vertices of a reducible graph reach each other exactly when a natural loop contains both.** -/
theorem common_loop_iff [Finite V] (hred : Reducible E r) {a b : V} (ha : Relation.ReflTransGen E r a) :
    Relation.TransGen E a b ∧ Relation.TransGen E b a ↔ ∃ h, LoopBody E r h a ∧ LoopBody E r h b := by
  constructor
  · rintro ⟨hab, hba⟩
    -- the vertices that reach each other with `a`, and the first of them
    let S : Set V := {c | Relation.ReflTransGen E a c ∧ Relation.ReflTransGen E c a}
    have hreached : ∀ c ∈ S, Relation.ReflTransGen E r c := fun c hc => ha.trans hc.1
    obtain ⟨h, hh, hfirst⟩ := exists_first hred hreached ⟨a, .refl, .refl⟩
    have hback : ∀ s ∈ S, E s h → Dominates E r h s := by
      intro s hs hsh
      by_contra hno
      exact hfirst s hs (.single ⟨hsh, hno⟩)
    have hloop : ∀ c ∈ S, LoopBody E r h c := by
      intro c hc
      have hch : Relation.TransGen E c h := (hab.trans hba).trans_right hc.2 |>.trans_left hh.1
      obtain ⟨l, hcl, hlh⟩ := first_arrival hch
      have hcl' : Relation.ReflTransGen E c l := Relation.ReflTransGen.mono (fun _ _ hxy => hxy.1) c l hcl
      have hl : l ∈ S := ⟨hc.1.trans hcl', .head hlh hh.2⟩
      have hlatch : Latch E r h l := ⟨hlh, hback l hl hlh, hreached l hl⟩
      exact ⟨⟨l, hlatch⟩, hreached c hc, .inr ⟨l, hlatch, hcl⟩⟩
    exact ⟨h, hloop a ⟨.refl, .refl⟩, hloop b ⟨hab.to_reflTransGen, hba.to_reflTransGen⟩⟩
  · rintro ⟨h, hha, hhb⟩
    exact ⟨hha.transGen hhb, hhb.transGen hha⟩

end SnippetsLlvm.Library
