import SnippetsLlvm.Ir.WellFormed
import SnippetsLlvm.Library.AvoidingPaths
import Mathlib.Data.Fintype.Card
import Mathlib.Data.Fintype.Sets

/-!
# The `cfg-path` pass

`DumpCFGPath` prints, for every block of a function, the other blocks that control can reach from it.  The
search `hasPath` is a depth-first search with early exit; its set of visited blocks is passed by value, so
that every call works on a copy, and the variable `traversePath` hands to all searches stays empty.

* `Cfg` — a function with distinct blocks whose successors are among them;
* `hasPath`, `traversePath` — the search and the text printed;
* `hasPath_iff` — what the search decides, for any set of visited blocks;
* `hasPath_exact` — **the same in terms of block lists, with what follows for the set and for the order in
  which the successors are enumerated**;
* `traversePath_eq_reachable` — the text lists exactly the reachable blocks.
-/

namespace SnippetsLlvm.CFGPath

open SnippetsLlvm.Ir SnippetsLlvm.Library

/-! ### The graph -/

/-- A function with distinct blocks whose successors are among them. -/
structure Cfg where
  fn : Function
  nodup : (fn.blocks.map BasicBlock.id).Nodup
  closed : ∀ B ∈ fn.blocks, ∀ b ∈ B.successors, b ∈ fn.blocks.map BasicBlock.id

/-- The graph of a function of a well-formed module. -/
def Cfg.ofFunction {M : Module} {F : Function} (h : F.WellFormed M) : Cfg :=
  ⟨F, h.blockIds, h.successors⟩

namespace Cfg

variable (G : Cfg)

/-- A block of the function, as the pass refers to it. -/
abbrev Block : Type := {b : ℕ // b ∈ G.fn.blocks.map BasicBlock.id}

/-- The blocks in the order of the function. -/
def blocks : List G.Block := (G.fn.blocks.map BasicBlock.id).attach

/-- `BasicBlock::getName`. -/
def name (b : G.Block) : String := ((G.fn.block? b.1).map BasicBlock.name).getD ""

theorem successors_closed (b : ℕ) : ∀ c ∈ G.fn.successors b, c ∈ G.fn.blocks.map BasicBlock.id := by
  intro c hc
  rw [Function.successors] at hc
  split at hc
  · rename_i B hB
    exact G.closed B (List.mem_of_find?_eq_some hB) c hc
  · cases hc

/-- The successors of a block, in the order of `succ_begin`. -/
def succ (b : G.Block) : List G.Block :=
  (G.fn.successors b.1).pmap Subtype.mk (G.successors_closed b.1)

/-- The edges of the control-flow graph. -/
def Edge (a b : G.Block) : Prop := b ∈ G.succ a

theorem edge_iff {a b : G.Block} : G.Edge a b ↔ b.1 ∈ G.fn.successors a.1 := by
  simp [Edge, succ, List.mem_pmap, Subtype.ext_iff]

theorem mem_blocks (b : G.Block) : b ∈ G.blocks := List.mem_attach _ b

theorem blocks_nodup : G.blocks.Nodup := List.nodup_attach.mpr G.nodup

end Cfg

/-! ### The search -/

theorem card_compl_insert_lt {V : Type} [Fintype V] [DecidableEq V] {A : Finset V} {a : V}
    (h : a ∉ A) : ((insert a A)ᶜ).card < (Aᶜ).card := by
  refine Finset.card_lt_card (Finset.compl_ssubset_compl.mpr ?_)
  exact Finset.ssubset_insert h

variable (G : Cfg)

/-- **`DumpCFGPath::hasPath`.**  The recursion ends because every call visits a block outside the set. -/
def hasPath (bb1 bb2 : G.Block) (visited : Finset G.Block) : Bool :=
  if bb1 = bb2 then true
  else (G.succ bb1).any fun pi =>
    if pi ∈ insert bb1 visited then false
    else hasPath pi bb2 (insert bb1 visited)
termination_by ((insert bb1 visited)ᶜ).card
decreasing_by exact card_compl_insert_lt ‹_›

/-- The blocks listed for `B1`, with the set handed to the searches. -/
def listed (visited : Finset G.Block) (B1 : G.Block) : List G.Block :=
  G.blocks.filter fun B2 => B1 ≠ B2 && hasPath G B1 B2 visited

/-- The line of `B1` when `Bs` are the blocks listed in it. -/
def line (B1 : G.Block) (Bs : List G.Block) : String :=
  G.name B1 ++ ": " ++ String.join (Bs.map fun B2 => G.name B2 ++ " ") ++ "\n"

/-- The lines of the given blocks.  A search gets a copy of the set and the loop clears it after each
line. -/
def traverseLines (visited : Finset G.Block) : List G.Block → List String
  | [] => []
  | B1 :: Bs => line G B1 (listed G visited B1) :: traverseLines ∅ Bs

/-- **`DumpCFGPath::traversePath`**: the text printed. -/
def traversePath : String :=
  "Func: " ++ G.fn.name ++ "\n" ++ String.join (traverseLines G ∅ G.blocks)

/-! ### What the search decides -/

variable {G}

/-- **The search is exact**, for every set of visited blocks: it finds the paths whose blocks after the
first are neither visited nor the first one. -/
theorem hasPath_iff (bb1 bb2 : G.Block) (visited : Finset G.Block) :
    hasPath G bb1 bb2 visited = true ↔ bb1 = bb2 ∨
      Relation.TransGen (avoiding G.Edge (insert bb1 (visited : Set G.Block))) bb1 bb2 := by
  fun_induction hasPath G bb1 bb2 visited with
  | case1 => simp
  | case2 bb1 visited hne ih =>
    rw [List.any_eq_true, transGen_avoiding_iff]
    simp only [hne, false_or]
    refine exists_congr fun pi => and_congr Iff.rfl ?_
    by_cases hpi : pi ∈ insert bb1 visited
    · have hpi' : pi ∈ insert bb1 (visited : Set G.Block) := by
        rw [← Finset.coe_insert]
        exact hpi
      simp [hpi, hpi']
    · have hpi' : pi ∉ insert bb1 (visited : Set G.Block) := by
        rw [← Finset.coe_insert]
        exact hpi
      rw [if_neg hpi, ih pi hpi, Finset.coe_insert]
      simp only [hpi', not_false_eq_true, true_and]

/-- With the empty set, the search decides whether control can reach another block. -/
theorem hasPath_empty_iff {bb1 bb2 : G.Block} (hne : bb1 ≠ bb2) :
    hasPath G bb1 bb2 ∅ = true ↔ Relation.TransGen G.Edge bb1 bb2 := by
  rw [hasPath_iff, Finset.coe_empty, insert_empty_eq, transGen_avoiding_self hne]
  simp [hne]

/-- The search in terms of the numbers of the blocks. -/
theorem hasPath_iff_ids (bb1 bb2 : G.Block) (visited : Finset G.Block) :
    hasPath G bb1 bb2 visited = true ↔ bb1.1 = bb2.1 ∨
      Relation.TransGen (avoiding (fun a b => b ∈ G.fn.successors a)
        (insert bb1.1 (Subtype.val '' (visited : Set G.Block)))) bb1.1 bb2.1 := by
  rw [hasPath_iff, Subtype.ext_iff]
  refine or_congr Iff.rfl (transGen_map (fun a b => ?_) (fun a b hab => ?_) bb1 bb2)
  · rw [avoiding, avoiding, G.edge_iff, ← Set.image_insert_eq, Subtype.val_injective.mem_set_image]
  · exact G.successors_closed a b hab.1

/-- **What the search decides, for every graph and every set of visited blocks**: whether the two blocks are
the same, or a path leads from the first to the second none of whose later blocks is visited or the first one.
So a larger set never finds more, and of the successors of a block only the set matters. -/
theorem hasPath_exact (G : Cfg) :
    (∀ (bb1 bb2 : G.Block) (visited : Finset G.Block),
      hasPath G bb1 bb2 visited = true ↔ bb1 = bb2 ∨
        ∃ xs, xs ≠ [] ∧ List.IsChain G.Edge (bb1 :: xs) ∧ xs.getLast? = some bb2 ∧
          ∀ x ∈ xs, x ∉ visited ∧ x ≠ bb1) ∧
    (∀ (bb1 bb2 : G.Block) (visited visited' : Finset G.Block), visited ⊆ visited' →
      hasPath G bb1 bb2 visited' = true → hasPath G bb1 bb2 visited = true) ∧
    ∀ G' : Cfg, (∀ a b, b ∈ G'.fn.successors a ↔ b ∈ G.fn.successors a) →
      ∀ (bb1 bb2 : G.Block) (bb1' bb2' : G'.Block) (visited : Finset G.Block)
        (visited' : Finset G'.Block), bb1'.1 = bb1.1 → bb2'.1 = bb2.1 →
        visited'.image Subtype.val = visited.image Subtype.val →
          hasPath G' bb1' bb2' visited' = hasPath G bb1 bb2 visited := by
  refine ⟨fun bb1 bb2 visited => ?_, fun bb1 bb2 visited visited' hsub h => ?_, ?_⟩
  · rw [hasPath_iff, transGen_iff_list]
    refine or_congr Iff.rfl (exists_congr fun xs => and_congr Iff.rfl ?_)
    rw [isChain_avoiding, and_assoc, and_comm (b := xs.getLast? = some bb2)]
    refine and_congr Iff.rfl (and_congr Iff.rfl (forall₂_congr fun x _ => ?_))
    rw [Set.mem_insert_iff, not_or, Finset.mem_coe, and_comm]
  · rw [hasPath_iff] at h ⊢
    refine h.imp_right (transGen_avoiding_anti (Set.insert_subset_insert ?_))
    exact Finset.coe_subset.mpr hsub
  · intro G' hsucc bb1 bb2 bb1' bb2' visited visited' h₁ h₂ hvisited
    have hedges : (fun a b => b ∈ G'.fn.successors a) = fun a b => b ∈ G.fn.successors a := by
      funext a b
      exact propext (hsucc a b)
    have himage : Subtype.val '' (visited' : Set G'.Block) = Subtype.val '' (visited : Set G.Block) := by
      rw [← Finset.coe_image, ← Finset.coe_image, hvisited]
    rw [Bool.eq_iff_iff, hasPath_iff_ids, hasPath_iff_ids, h₁, h₂, hedges, himage]

/-! ### The text -/

open Classical in
variable (G) in
/-- The other blocks that control can reach from `B1`, in block order. -/
noncomputable def reachable (B1 : G.Block) : List G.Block :=
  G.blocks.filter fun B2 => decide (B1 ≠ B2 ∧ Relation.TransGen G.Edge B1 B2)

theorem mem_reachable {B1 B2 : G.Block} :
    B2 ∈ reachable G B1 ↔ B1 ≠ B2 ∧ Relation.TransGen G.Edge B1 B2 := by
  simp [reachable, G.mem_blocks]

theorem listed_eq_reachable (B1 : G.Block) : listed G ∅ B1 = reachable G B1 := by
  refine List.filter_congr fun B2 _ => ?_
  by_cases hne : B1 = B2
  · simp [hne]
  · apply Bool.eq_iff_iff.mpr
    simp [hne, hasPath_empty_iff hne]

/-- The set stays empty, so no search sees what another one marked. -/
theorem traverseLines_eq (Bs : List G.Block) :
    traverseLines G ∅ Bs = Bs.map fun B1 => line G B1 (reachable G B1) := by
  induction Bs with
  | nil => rfl
  | cons B1 Bs ih => rw [traverseLines, ih, listed_eq_reachable, List.map_cons]

/-- The reported relation is transitive, up to the diagonal it leaves out. -/
theorem reachable_trans {B1 B2 B3 : G.Block} (h₁ : B2 ∈ reachable G B1)
    (h₂ : B3 ∈ reachable G B2) (hne : B1 ≠ B3) : B3 ∈ reachable G B1 := by
  rw [mem_reachable] at h₁ h₂ ⊢
  exact ⟨hne, h₁.2.trans h₂.2⟩

/-- **`cfg-path` reports exactly reachability**: one line for each block, in block order; the line of `B1`
lists in block order, and once each, the other blocks to which a path of one or more edges leads from
`B1`. -/
theorem traversePath_eq_reachable (G : Cfg) :
    traversePath G = "Func: " ++ G.fn.name ++ "\n" ++
        String.join (G.blocks.map fun B1 => line G B1 (reachable G B1)) ∧
      (G.blocks.map Subtype.val = G.fn.blocks.map BasicBlock.id ∧ G.blocks.Nodup) ∧
      (∀ B1, (reachable G B1).Sublist G.blocks ∧ (reachable G B1).Nodup ∧
        ∀ B2, B2 ∈ reachable G B1 ↔ B1 ≠ B2 ∧ Relation.TransGen G.Edge B1 B2) ∧
      ∀ B1 B2 B3, B2 ∈ reachable G B1 → B3 ∈ reachable G B2 → B1 ≠ B3 → B3 ∈ reachable G B1 := by
  refine ⟨?_, ⟨List.attach_map_subtype_val _, G.blocks_nodup⟩, fun B1 => ⟨?_, ?_, ?_⟩, ?_⟩
  · rw [traversePath, traverseLines_eq]
  · exact List.filter_sublist
  · exact G.blocks_nodup.filter _
  · intro B2
    exact mem_reachable
  · intro B1 B2 B3 h₁ h₂ hne
    exact reachable_trans h₁ h₂ hne

end SnippetsLlvm.CFGPath
