import SnippetsLlvm.Library.AvoidingPaths

/-!
# Natural loops

The loops of a control-flow graph with one entry.  A vertex dominates another when every path from the entry
to the latter passes through it; an edge to a dominator closes a loop, whose header is its target and whose
body is what can go around without passing the header.  The graph is any relation, and nothing asks for it to
be reducible.

* `Dominates` — dominance, with `dominates_or_dominates` and `Dominates.antisymm`;
* `LoopBody` — the natural loop of a header, which the header dominates (`LoopBody.dominates`) and which is
  strongly connected (`LoopBody.path`);
* `loopBody_nested` — **loops that share a vertex are nested**, so that every vertex of a loop has an
  innermost one;
* `LoopBody.dominates_of_entered` — the only vertex from which a loop is entered dominates its body, and
  `Dominates.marked` — paths pass the dominators of their ends.
-/

namespace SnippetsLlvm.Library

variable {V : Type*} {E : V → V → Prop} {r : V}

/-! ### The first and the last visit of a path -/

/-- What follows the last visit to a set. -/
theorem last_visit {S : Set V} {a b : V} (h : Relation.ReflTransGen E a b) :
    Relation.ReflTransGen (avoiding E S) a b ∨ ∃ s ∈ S, Relation.ReflTransGen (avoiding E S) s b := by
  induction h with
  | refl => exact .inl .refl
  | @tail c d _ hcd ih =>
    by_cases hd : d ∈ S
    · exact .inr ⟨d, hd, .refl⟩
    · rcases ih with hac | ⟨s, hs, hsc⟩
      · exact .inl (hac.tail ⟨hcd, hd⟩)
      · exact .inr ⟨s, hs, hsc.tail ⟨hcd, hd⟩⟩

/-- What precedes the first visit to one of two vertices, on a path to one of them. -/
theorem first_visit {x y a b : V} (hxy : x ≠ y) (h : Relation.ReflTransGen E a b) (hb : b = x ∨ b = y) :
    Relation.ReflTransGen (avoiding E {y}) a x ∨ Relation.ReflTransGen (avoiding E {x}) a y := by
  have hstep : ∀ c, Relation.ReflTransGen E a c → (c ≠ x ∧ c ≠ y ∧
      Relation.ReflTransGen (avoiding E {x, y}) a c) ∨
      Relation.ReflTransGen (avoiding E {y}) a x ∨ Relation.ReflTransGen (avoiding E {x}) a y := by
    intro c hac
    have hmono : ∀ {z : V} {d : V}, z = x ∨ z = y → Relation.ReflTransGen (avoiding E {x, y}) a d →
        Relation.ReflTransGen (avoiding E {z}) a d := by
      intro z d hz hd
      refine reflTransGen_avoiding_anti ?_ hd
      rcases hz with rfl | rfl
      · simp
      · simp
    induction hac with
    | refl =>
      by_cases hax : a = x
      · subst hax
        exact .inr (.inl .refl)
      · by_cases hay : a = y
        · subst hay
          exact .inr (.inr .refl)
        · exact .inl ⟨hax, hay, .refl⟩
    | @tail c d _ hcd ih =>
      rcases ih with ⟨-, -, hac⟩ | hrest
      · by_cases hdx : d = x
        · subst hdx
          exact .inr (.inl ((hmono (.inr rfl) hac).tail ⟨hcd, hxy⟩))
        · by_cases hdy : d = y
          · subst hdy
            exact .inr (.inr ((hmono (.inl rfl) hac).tail ⟨hcd, hxy.symm⟩))
          · exact .inl ⟨hdx, hdy, hac.tail ⟨hcd, by simp [hdx, hdy]⟩⟩
      · exact .inr hrest
  rcases hstep b h with ⟨hbx, hby, -⟩ | hrest
  · rcases hb with hb | hb
    · exact absurd hb hbx
    · exact absurd hb hby
  · exact hrest

/-! ### Dominance -/

/-- Every path from `r` to `b` passes through `h`. -/
def Dominates (E : V → V → Prop) (r h b : V) : Prop :=
  Relation.ReflTransGen (avoiding E {h}) r b → r = h

/-- A path to a vertex that avoids it is empty. -/
theorem eq_of_avoiding_self {a b : V} (h : Relation.ReflTransGen (avoiding E {b}) a b) : a = b := by
  cases h using Relation.ReflTransGen.head_induction_on with
  | refl => rfl
  | head hac hcb =>
    rcases hcb.cases_tail with rfl | ⟨d, -, hd⟩
    · exact absurd rfl hac.2
    · exact absurd rfl hd.2

theorem dominates_self (b : V) : Dominates E r b b := fun h => eq_of_avoiding_self h

/-- **Two vertices that dominate each other** are the same. -/
theorem Dominates.antisymm {x y : V} (hxy : Dominates E r x y) (hyx : Dominates E r y x)
    (hx : Relation.ReflTransGen E r x) : x = y := by
  by_contra hne
  rcases first_visit hne hx (.inl rfl) with h | h
  · have hry := hyx h
    subst hry
    exact hne (hxy .refl).symm
  · have hrx := hxy h
    subst hrx
    exact hne (hyx .refl)

/-- **The dominators of a vertex** are a chain. -/
theorem dominates_or_dominates {x y b : V} (hb : Relation.ReflTransGen E r b) (hx : Dominates E r x b)
    (hy : Dominates E r y b) : Dominates E r x y ∨ Dominates E r y x := by
  by_contra hno
  obtain ⟨hnxy, hnyx⟩ := not_or.mp hno
  simp only [Dominates, Classical.not_imp] at hnxy hnyx
  obtain ⟨hry, hrx⟩ := hnxy
  obtain ⟨hrx', hry'⟩ := hnyx
  have hxpair : ∀ {a c}, Relation.ReflTransGen (avoiding E {x, y}) a c →
      Relation.ReflTransGen (avoiding E {x}) a c :=
    reflTransGen_avoiding_anti (by simp)
  have hypair : ∀ {a c}, Relation.ReflTransGen (avoiding E {x, y}) a c →
      Relation.ReflTransGen (avoiding E {y}) a c :=
    reflTransGen_avoiding_anti (by simp)
  -- after the last visit to one of the two, the path avoids both
  rcases last_visit (S := {x, y}) hb with h | ⟨s, hs, h⟩
  · exact hrx (hx (hxpair h))
  · rcases hs with rfl | rfl
    · exact hry' (hy (hrx'.trans (hypair h)))
    · exact hrx (hx (hry.trans (hxpair h)))

/-! ### Natural loops -/

/-- An edge from `l` closes a loop at its header `h`. -/
structure Latch (E : V → V → Prop) (r h l : V) : Prop where
  edge : E l h
  dominates : Dominates E r h l
  reached : Relation.ReflTransGen E r l

/-- The natural loop of the header `h`: the header, and what reaches a latch without passing it. -/
structure LoopBody (E : V → V → Prop) (r h b : V) : Prop where
  latched : ∃ l, Latch E r h l
  reached : Relation.ReflTransGen E r b
  around : b = h ∨ ∃ l, Latch E r h l ∧ Relation.ReflTransGen (avoiding E {h}) b l

namespace LoopBody

variable {h b : V}

theorem header (hb : LoopBody E r h b) : LoopBody E r h h := by
  obtain ⟨l, hl⟩ := hb.latched
  exact ⟨⟨l, hl⟩, hl.reached.tail hl.edge, .inl rfl⟩

/-- **The header dominates the body.** -/
theorem dominates (hb : LoopBody E r h b) : Dominates E r h b := by
  rcases hb.around with rfl | ⟨l, hl, hbl⟩
  · exact dominates_self b
  · intro hrb
    exact hl.dominates (hrb.trans hbl)

/-- What reaches a vertex of the body without passing the header is in the body. -/
theorem path_of_avoiding (hb : LoopBody E r h b) {a : V} (hab : Relation.ReflTransGen (avoiding E {h}) a b)
    (ha : Relation.ReflTransGen E r a) : Relation.ReflTransGen (fun x y => E x y ∧ LoopBody E r h y) a b := by
  induction hab using Relation.ReflTransGen.head_induction_on with
  | refl => exact .refl
  | @head a c hac hcb ih =>
    have hc : Relation.ReflTransGen E r c := ha.tail hac.1
    refine .head ⟨hac.1, hb.latched, hc, ?_⟩ (ih hc)
    rcases hb.around with rfl | ⟨l, hl, hbl⟩
    · exact .inl (eq_of_avoiding_self hcb)
    · exact .inr ⟨l, hl, hcb.trans hbl⟩

/-- From the header to any vertex of the body, inside it. -/
theorem path_from_header (hb : LoopBody E r h b) :
    Relation.ReflTransGen (fun x y => E x y ∧ LoopBody E r h y) h b := by
  have hhb : Relation.ReflTransGen (avoiding E {h}) h b := by
    rcases last_visit (S := {h}) hb.reached with hrb | ⟨s, rfl, hsb⟩
    · have hr := hb.dominates hrb
      subst hr
      exact hrb
    · exact hsb
  exact hb.path_of_avoiding hhb hb.header.reached

/-- From any vertex of the body to the header, inside it. -/
theorem path_to_header (hb : LoopBody E r h b) :
    Relation.ReflTransGen (fun x y => E x y ∧ LoopBody E r h y) b h := by
  rcases hb.around with rfl | ⟨l, hl, hbl⟩
  · exact .refl
  · have hlatch : LoopBody E r h l := ⟨⟨l, hl⟩, hl.reached, .inr ⟨l, hl, .refl⟩⟩
    exact (hlatch.path_of_avoiding hbl hb.reached).tail ⟨hl.edge, hb.header⟩

/-- **The body is strongly connected.** -/
theorem path {a : V} (ha : LoopBody E r h a) (hb : LoopBody E r h b) :
    Relation.ReflTransGen (fun x y => E x y ∧ LoopBody E r h y) a b :=
  ha.path_to_header.trans hb.path_from_header

/-- The header is determined by the body. -/
theorem header_unique {h' : V} (heq : ∀ b, LoopBody E r h b ↔ LoopBody E r h' b) (hb : LoopBody E r h b) :
    h = h' := by
  have hh : LoopBody E r h' h := (heq h).mp hb.header
  have hh' : LoopBody E r h h' := (heq h').mpr hh.header
  exact hh'.dominates.antisymm hh.dominates hb.header.reached

/-- A loop whose header is dominated by the other one's, and which shares a vertex with it, lies inside. -/
theorem subset_of_dominates {h₁ h₂ c : V} (h₁b : LoopBody E r h₁ b) (h₂b : LoopBody E r h₂ b)
    (hne : h₁ ≠ h₂) (hdom : Dominates E r h₁ h₂) (hc : LoopBody E r h₂ c) : LoopBody E r h₁ c := by
  have hout : ∀ {x}, LoopBody E r h₂ x → x ≠ h₁ := by
    rintro x hx rfl
    exact hne (hdom.antisymm hx.dominates hx.reached)
  have hcb : Relation.ReflTransGen (avoiding E {h₁}) c b :=
    Relation.ReflTransGen.mono (fun _ _ hxy => ⟨hxy.1, hout hxy.2⟩) c b (hc.path h₂b)
  rcases h₁b.around with heq | ⟨l, hl, hbl⟩
  · exact absurd heq (hout h₂b)
  · exact ⟨h₁b.latched, hc.reached, .inr ⟨l, hl, hcb.trans hbl⟩⟩

end LoopBody

/-- **Loops that share a vertex are nested.** -/
theorem loopBody_nested {h₁ h₂ b : V} (h₁b : LoopBody E r h₁ b) (h₂b : LoopBody E r h₂ b) :
    (∀ c, LoopBody E r h₂ c → LoopBody E r h₁ c) ∨ ∀ c, LoopBody E r h₁ c → LoopBody E r h₂ c := by
  by_cases hne : h₁ = h₂
  · subst hne
    exact .inl fun _ hc => hc
  · rcases dominates_or_dominates h₁b.reached h₁b.dominates h₂b.dominates with hdom | hdom
    · exact .inl fun c hc => LoopBody.subset_of_dominates h₁b h₂b hne hdom hc
    · exact .inr fun c hc => LoopBody.subset_of_dominates h₂b h₁b (Ne.symm hne) hdom hc

/-! ### How a loop is entered -/

/-- Outside a loop whose only outside predecessor is avoided, a path stays outside. -/
theorem LoopBody.notMem_of_avoiding {h p b : V} (hlatched : ∃ l, Latch E r h l) (hr : r ≠ h) (hrp : r ≠ p)
    (hp : ∀ q, ¬ LoopBody E r h q → E q h → q = p) (hb : Relation.ReflTransGen (avoiding E {p}) r b) :
    b ≠ p ∧ ¬ LoopBody E r h b := by
  induction hb with
  | refl => exact ⟨hrp, fun hbody => hr (hbody.dominates .refl)⟩
  | @tail c d hrc hcd ih =>
    obtain ⟨hcp, hc⟩ := ih
    refine ⟨fun hdp => hcd.2 hdp, fun hd => ?_⟩
    rcases hd.around with rfl | ⟨l, hl, hdl⟩
    · exact hcp (hp c hc hcd.1)
    · by_cases hdh : d = h
      · subst hdh
        exact hcp (hp c hc hcd.1)
      · have hreach : Relation.ReflTransGen E r c :=
          Relation.ReflTransGen.mono (fun _ _ hxy => hxy.1) r c hrc
        exact hc ⟨hlatched, hreach, .inr ⟨l, hl, hdl.head ⟨hcd.1, hdh⟩⟩⟩

/-- **The only vertex from which a loop is entered dominates its body**, unless the loop begins at the entry. -/
theorem LoopBody.dominates_of_entered {h p b : V} (hb : LoopBody E r h b) (hr : r ≠ h)
    (hp : ∀ q, ¬ LoopBody E r h q → E q h → q = p) : Dominates E r p b := by
  intro hpath
  by_contra hrp
  exact (LoopBody.notMem_of_avoiding hb.latched hr hrp hp hpath).2 hb

/-- **A path through marked vertices passes the dominators of its end**: they are marked, the end itself apart. -/
theorem Dominates.marked {S : V → Prop} {d b : V} (hdom : Dominates E r d b) (hne : d ≠ b)
    (hpath : Relation.ReflTransGen (fun x y => E x y ∧ S x) r b) : S d := by
  by_contra hd
  have havoid : ∀ {c}, c ≠ d → Relation.ReflTransGen (fun x y => E x y ∧ S x) r c →
      Relation.ReflTransGen (avoiding E {d}) r c := by
    intro c hc hrc
    induction hrc with
    | refl => exact .refl
    | @tail x y _ hxy ih =>
      have hx : x ≠ d := by
        rintro rfl
        exact hd hxy.2
      exact (ih hx).tail ⟨hxy.1, hc⟩
  have hrd := hdom (havoid (Ne.symm hne) hpath)
  subst hrd
  cases hpath using Relation.ReflTransGen.head_induction_on with
  | refl => exact hne rfl
  | head hstep _ => exact hd hstep.2

end SnippetsLlvm.Library
