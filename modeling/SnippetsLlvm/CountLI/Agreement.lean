import SnippetsLlvm.CountLI.CountLD
import SnippetsLlvm.Library.Reducible
import Mathlib.Data.Fintype.EquivFin

/-!
# What `count-li` and `cfg-path` say of the same function

`cfg-path` lists what a block reaches, `count-li` works on natural loops.  Blocks of a loop list each other; where the
graph is reducible the converse holds, so that the two reports agree on which functions have loops.

* `reaches_iff` — the blocks reached, from the line of the entry;
* `reports_agree` — **blocks that list each other are the blocks of a common loop, and `no loop inside` is printed
  exactly when no reached block is its own successor or lists a block that lists it**.
-/

namespace SnippetsLlvm.CountLI

open SnippetsLlvm.Ir SnippetsLlvm.Library SnippetsLlvm.CFGPath

variable {G : Cfg} (LI : LoopInfo G)

/-- The entry, or a block listed in its line. -/
def Reached (B : G.Block) : Prop := B = LI.entry ∨ B ∈ listed G ∅ LI.entry

variable {LI}

theorem mem_listed {a b : G.Block} : b ∈ listed G ∅ a ↔ a ≠ b ∧ Relation.TransGen G.Edge a b := by
  rw [listed_eq_reachable, mem_reachable]

theorem reaches_iff {B : G.Block} : Reached LI B ↔ Relation.ReflTransGen G.Edge LI.entry B := by
  rw [Reached, mem_listed, Relation.reflTransGen_iff_eq_or_transGen]
  constructor
  · rintro (h | h)
    · exact .inl h
    · exact .inr h.2
  · rintro (h | h)
    · exact .inl h
    · by_cases hB : B = LI.entry
      · exact .inl hB
      · exact .inr ⟨Ne.symm hB, h⟩

/-- A common natural loop is one of the loops. -/
theorem exists_loop_iff {a b : G.Block} : (∃ h, LoopBody G.Edge LI.entry h a ∧ LoopBody G.Edge LI.entry h b) ↔
    ∃ L ∈ LI.loops, a ∈ L.blocks ∧ b ∈ L.blocks := by
  constructor
  · rintro ⟨h, ha, hb⟩
    obtain ⟨l, hl⟩ := ha.latched
    obtain ⟨L, hL, rfl⟩ := LI.complete h l hl
    exact ⟨L, hL, (LI.body L hL a).mpr ha, (LI.body L hL b).mpr hb⟩
  · rintro ⟨L, hL, ha, hb⟩
    exact ⟨L.header, (LI.body L hL a).mp ha, (LI.body L hL b).mp hb⟩

/-- **Blocks that list each other are the blocks of a common loop.** -/
theorem listed_both_iff (hred : Reducible G.Edge LI.entry) {a b : G.Block} (ha : Reached LI a) (hne : a ≠ b) :
    (b ∈ listed G ∅ a ∧ a ∈ listed G ∅ b) ↔ ∃ L ∈ LI.loops, a ∈ L.blocks ∧ b ∈ L.blocks := by
  rw [← exists_loop_iff, ← common_loop_iff hred (reaches_iff.mp ha), mem_listed, mem_listed]
  constructor
  · rintro ⟨hab, hba⟩
    exact ⟨hab.2, hba.2⟩
  · rintro ⟨hab, hba⟩
    exact ⟨⟨hne, hab⟩, hne.symm, hba⟩

/-- A loop has a block that goes to itself, or two blocks that list each other. -/
theorem loops_eq_nil_iff (hred : Reducible G.Edge LI.entry) : LI.loops = [] ↔
    ∀ a, Reached LI a → a ∉ G.succ a ∧ ∀ b ∈ listed G ∅ a, a ∉ listed G ∅ b := by
  constructor
  · intro hnil a ha
    have hnone : ∀ b, ¬ (Relation.TransGen G.Edge a b ∧ Relation.TransGen G.Edge b a) := by
      intro b hab
      obtain ⟨L, hL, -⟩ := exists_loop_iff.mp ((common_loop_iff hred (reaches_iff.mp ha)).mp hab)
      rw [hnil] at hL
      cases hL
    refine ⟨fun hself => hnone a ⟨.single hself, .single hself⟩, fun b hb hab => ?_⟩
    exact hnone b ⟨(mem_listed.mp hb).2, (mem_listed.mp hab).2⟩
  · intro h
    refine List.eq_nil_iff_forall_not_mem.mpr fun L hL => ?_
    obtain ⟨l, hl⟩ := LI.latched L hL
    obtain ⟨hself, hlisted⟩ := h l (reaches_iff.mpr hl.reached)
    by_cases heq : l = L.header
    · exact hself (heq ▸ hl.edge)
    · have hback : Relation.TransGen G.Edge L.header l := hl.loopBody.header.transGen hl.loopBody
      exact hlisted L.header (mem_listed.mpr ⟨heq, .single hl.edge⟩) (mem_listed.mpr ⟨Ne.symm heq, hback⟩)

/-- The line `no loop inside` is printed when there is none. -/
theorem noLoop_mem_iff {isLegalToHoistInto : G.Block → Bool} :
    .noLoop ∈ runOnFunction LI isLegalToHoistInto ↔ LI.loops = [] := by
  rw [runOnFunction, List.mem_cons]
  split
  · rename_i hnil
    simp [List.isEmpty_iff.mp hnil]
  · rename_i hne
    rw [List.isEmpty_iff] at hne
    refine iff_of_false ?_ hne
    rintro (h | h)
    · cases h
    · obtain ⟨B, -, hB⟩ := List.mem_flatMap.mp h
      rcases List.mem_cons.mp hB with hB | hB
      · cases hB
      · rw [loopLines] at hB
        split at hB
        · cases hB
        · simp at hB

/-- **The reports of `count-li` and `cfg-path` agree**: the blocks of a loop list each other; and on a reducible
function the blocks reached that list each other share a loop, and no loop is reported exactly when none of them goes
to itself or lists one that lists it. -/
theorem reports_agree {G : Cfg} (LI : LoopInfo G) :
    (∀ L ∈ LI.loops, ∀ a ∈ L.blocks, ∀ b ∈ L.blocks, a ≠ b → b ∈ listed G ∅ a) ∧
    (Reducible G.Edge LI.entry →
      (∀ a b, Reached LI a → a ≠ b →
        ((b ∈ listed G ∅ a ∧ a ∈ listed G ∅ b) ↔ ∃ L ∈ LI.loops, a ∈ L.blocks ∧ b ∈ L.blocks)) ∧
      ∀ isLegalToHoistInto, .noLoop ∈ runOnFunction LI isLegalToHoistInto ↔
        ∀ a, Reached LI a → a ∉ G.succ a ∧ ∀ b ∈ listed G ∅ a, a ∉ listed G ∅ b) := by
  constructor
  · intro L hL a ha b hb hne
    exact mem_listed.mpr ⟨hne, ((LI.body L hL a).mp ha).transGen ((LI.body L hL b).mp hb)⟩
  · intro hred
    constructor
    · intro a b ha hne
      exact listed_both_iff hred ha hne
    · intro legal
      rw [noLoop_mem_iff, loops_eq_nil_iff hred]

/-- The loop of `spinFn` is closed by its only edge to a dominator. -/
theorem reducible_spin : Reducible spinCfg.Edge spinLI.entry := by
  have hlt : ∀ a b : spinCfg.Block, Forward spinCfg.Edge spinLI.entry a b → a.1 < b.1 := by
    rintro a b ⟨hab, hno⟩
    obtain ⟨ha, hb⟩ := spin_edge hab
    rcases ha with rfl | rfl
    · rcases hb with rfl | rfl
      · decide
      · decide
    · rcases hb with rfl | rfl
      · exact absurd (dominates_self _) hno
      · decide
  intro b _ hb
  have hmono : ∀ a c : spinCfg.Block, Relation.TransGen (Forward spinCfg.Edge spinLI.entry) a c → a.1 < c.1 := by
    intro a c hac
    induction hac with
    | single hac => exact hlt _ _ hac
    | tail _ hcd ih => exact ih.trans (hlt _ _ hcd)
  exact Nat.lt_irrefl _ (hmono b b hb)

/-- Its loop is one block that goes to itself. -/
theorem reports_agree_spin :
    (∀ a b, Reached spinLI a → a ≠ b → ((b ∈ listed spinCfg ∅ a ∧ a ∈ listed spinCfg ∅ b) ↔
      ∃ L ∈ spinLI.loops, a ∈ L.blocks ∧ b ∈ L.blocks)) ∧
    ∀ isLegalToHoistInto, .noLoop ∈ runOnFunction spinLI isLegalToHoistInto ↔
      ∀ a, Reached spinLI a → a ∉ spinCfg.succ a ∧ ∀ b ∈ listed spinCfg ∅ a, a ∉ listed spinCfg ∅ b :=
  (reports_agree spinLI).2 reducible_spin

end SnippetsLlvm.CountLI
