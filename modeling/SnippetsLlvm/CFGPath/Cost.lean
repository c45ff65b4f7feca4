import SnippetsLlvm.CFGPath.DumpCFGPath
import Mathlib.Algebra.Group.Nat.Defs

/-!
# What a search costs

`hasPath` takes its set of visited blocks by value.  A block that one branch of the search has left without success
is searched again by the next one, so that only the nesting of the calls is bounded by the number of blocks, not
their number.

* `hasPathCost` — the search with its calls counted and nested;
* `hasPathCost_depth_le` — no search nests deeper than there are blocks;
* `calls_ifs` — after `n` conditionals in a row, a search without success makes `2 ^ (n + 2) - 3` calls;
* `hasPath_cost` — **both together**.
-/

namespace SnippetsLlvm.CFGPath

open SnippetsLlvm.Ir SnippetsLlvm.Library

/-! ### The search with its costs -/

/-- The result of a search, the number of calls it made and how deep they nested. -/
structure SearchCost where
  found : Bool
  calls : ℕ
  depth : ℕ
deriving DecidableEq, Repr

/-- A search goes on with another call. -/
def SearchCost.andThen (r c : SearchCost) : SearchCost :=
  ⟨c.found, r.calls + c.calls, max r.depth (c.depth + 1)⟩

variable (G : Cfg)

/-- `DumpCFGPath::hasPath`, with every call counted. -/
def hasPathCost (bb1 bb2 : G.Block) (visited : Finset G.Block) : SearchCost :=
  if bb1 = bb2 then ⟨true, 1, 1⟩
  else (G.succ bb1).foldl (fun r pi =>
    if r.found then r
    else if pi ∈ insert bb1 visited then r
    else r.andThen (hasPathCost pi bb2 (insert bb1 visited))) ⟨false, 1, 1⟩
termination_by ((insert bb1 visited)ᶜ).card
decreasing_by exact card_compl_insert_lt ‹_›

variable {G}

/-! ### The loop over the successors -/

section Loop

variable {V : Type} [DecidableEq V] {A : Finset V} {search : V → SearchCost}

theorem foldl_found (vs : List V) (r : SearchCost) :
    (vs.foldl (fun r v => if r.found then r else if v ∈ A then r else r.andThen (search v)) r).found =
      (r.found || vs.any fun v => if v ∈ A then false else (search v).found) := by
  induction vs generalizing r with
  | nil => simp
  | cons v vs ih =>
    rw [List.foldl_cons, ih, List.any_cons]
    cases hr : r.found with
    | true => simp [hr]
    | false =>
      by_cases hv : v ∈ A
      · simp [hv, hr]
      · simp [hv, SearchCost.andThen]

theorem foldl_depth_le {d : ℕ} (vs : List V) (hd : ∀ v ∈ vs, v ∉ A → (search v).depth + 1 ≤ d) {r : SearchCost}
    (hr : r.depth ≤ d) :
    (vs.foldl (fun r v => if r.found then r else if v ∈ A then r else r.andThen (search v)) r).depth ≤ d := by
  induction vs generalizing r with
  | nil => exact hr
  | cons v vs ih =>
    rw [List.foldl_cons]
    apply ih fun w hw => hd w (List.mem_cons_of_mem v hw)
    split
    · exact hr
    · split
      · exact hr
      · rename_i hv
        exact max_le hr (hd v List.mem_cons_self hv)

end Loop

/-- **The costs belong to the search.** -/
theorem hasPathCost_found (bb1 bb2 : G.Block) (visited : Finset G.Block) :
    (hasPathCost G bb1 bb2 visited).found = hasPath G bb1 bb2 visited := by
  fun_induction hasPathCost G bb1 bb2 visited with
  | case1 => simp [hasPath]
  | case2 bb1 visited hne ih =>
    rw [foldl_found, hasPath, if_neg hne, Bool.false_or]
    refine congrArg (G.succ bb1).any (funext fun pi => ?_)
    split
    · rfl
    · rename_i hpi
      exact ih pi hpi

/-- **No search nests deeper than there are blocks** it may still visit. -/
theorem hasPathCost_depth_le (bb1 bb2 : G.Block) (visited : Finset G.Block) :
    (hasPathCost G bb1 bb2 visited).depth ≤ ((insert bb1 visited)ᶜ).card + 1 := by
  fun_induction hasPathCost G bb1 bb2 visited with
  | case1 => simp
  | case2 bb1 visited hne ih =>
    refine foldl_depth_le _ (fun pi _ hpi => ?_) (by simp)
    have hlt := card_compl_insert_lt hpi
    have hdepth := ih pi hpi
    omega

/-- There are as many blocks as the function lists. -/
theorem card_block (G : Cfg) : Fintype.card G.Block = G.blocks.length := by
  have huniv : G.blocks.toFinset = Finset.univ := by
    ext b
    simp [G.mem_blocks b]
  rw [← Finset.card_univ, ← huniv, List.toFinset_card_of_nodup G.blocks_nodup]

/-- No search nests deeper than there are blocks. -/
theorem depth_le_length (bb1 bb2 : G.Block) (visited : Finset G.Block) :
    (hasPathCost G bb1 bb2 visited).depth ≤ G.blocks.length := by
  have hdepth := hasPathCost_depth_le bb1 bb2 visited
  have hpos : 0 < (insert bb1 visited).card := Finset.card_pos.mpr (Finset.insert_nonempty bb1 visited)
  have hcompl := Finset.card_compl_add_card (insert bb1 visited)
  rw [card_block] at hcompl
  omega

/-- A block with one successor, which the search tries in vain. -/
theorem hasPathCost_one {b t x : G.Block} {visited : Finset G.Block} (hne : b ≠ t) (hsucc : G.succ b = [x])
    (hx : x ∉ insert b visited) {c d : ℕ} (hcost : hasPathCost G x t (insert b visited) = ⟨false, c, d⟩) :
    hasPathCost G b t visited = ⟨false, 1 + c, d + 1⟩ := by
  rw [hasPathCost, if_neg hne, hsucc]
  simp only [List.foldl_cons, List.foldl_nil, Bool.false_eq_true, if_false, if_neg hx, hcost, SearchCost.andThen]
  rw [max_eq_right (by omega)]

/-- A block with two, which it tries one after the other. -/
theorem hasPathCost_two {b t x y : G.Block} {visited : Finset G.Block} (hne : b ≠ t) (hsucc : G.succ b = [x, y])
    (hx : x ∉ insert b visited) (hy : y ∉ insert b visited) {c d : ℕ}
    (hxcost : hasPathCost G x t (insert b visited) = ⟨false, c, d⟩)
    (hycost : hasPathCost G y t (insert b visited) = ⟨false, c, d⟩) :
    hasPathCost G b t visited = ⟨false, 1 + 2 * c, d + 1⟩ := by
  rw [hasPathCost, if_neg hne, hsucc]
  simp only [List.foldl_cons, List.foldl_nil, Bool.false_eq_true, if_false, if_neg hx, if_neg hy, hxcost, hycost,
    SearchCost.andThen]
  rw [SearchCost.mk.injEq]
  exact ⟨rfl, by omega, by omega⟩

/-! ### Conditionals in a row -/

/-- The terminators of `n` conditionals in a row: block `3 * i` branches to the next two, which both go to block
`3 * i + 3`.  The last two blocks return. -/
def ifTerm (n k : ℕ) : Instruction :=
  if k < 3 * n then
    ⟨k, .br, .void, if k % 3 = 0 then [.arg 0 (.integer 1), .block (k + 2), .block (k + 1)]
      else [.block (k + 3 - k % 3)], false⟩
  else ⟨k, .ret, .void, [], false⟩

/-- The block of that number. -/
def ifBlock (n k : ℕ) : BasicBlock := ⟨k, "", [ifTerm n k]⟩

/-- The function with `n` conditionals in a row, and one block that nothing leads to. -/
def ifsFn (n : ℕ) : Function :=
  ⟨0, "ifs", ⟨.void, [.integer 1], false⟩, .external, ⟨[], []⟩, false, 0, none, none, none, none,
    (List.range (3 * n + 2)).map (ifBlock n), 3 * n + 2, 3 * n + 2⟩

/-- Where control may go. -/
def ifTargets (n k : ℕ) : List ℕ :=
  if k < 3 * n then if k % 3 = 0 then [k + 1, k + 2] else [k + 3 - k % 3] else []

theorem successors_ifBlock (n k : ℕ) : (ifBlock n k).successors = ifTargets n k := by
  rw [ifBlock, ifTerm, ifTargets]
  by_cases hk : k < 3 * n
  · rw [if_pos hk, if_pos hk]
    by_cases hmod : k % 3 = 0
    · rw [if_pos hmod, if_pos hmod]
      rfl
    · rw [if_neg hmod, if_neg hmod]
      rfl
  · rw [if_neg hk, if_neg hk]
    rfl

theorem ifsFn_ids (n : ℕ) : (ifsFn n).blocks.map BasicBlock.id = List.range (3 * n + 2) := by
  rw [ifsFn, List.map_map]
  exact List.map_id' (List.range (3 * n + 2))

theorem lt_of_mem_ifTargets {n k t : ℕ} (h : t ∈ ifTargets n k) : t < 3 * n + 2 := by
  rw [ifTargets] at h
  split at h
  · split at h
    · simp only [List.mem_cons, List.not_mem_nil, or_false] at h
      omega
    · rw [List.mem_singleton] at h
      omega
  · cases h

/-- Its graph. -/
def ifsCfg (n : ℕ) : Cfg where
  fn := ifsFn n
  nodup := by
    rw [ifsFn_ids]
    exact List.nodup_range
  closed := by
    intro B hB b hb
    obtain ⟨k, -, rfl⟩ := List.mem_map.mp hB
    rw [successors_ifBlock] at hb
    rw [ifsFn_ids, List.mem_range]
    exact lt_of_mem_ifTargets hb

theorem map_succ_ifsCfg (n : ℕ) (b : (ifsCfg n).Block) : ((ifsCfg n).succ b).map Subtype.val = ifTargets n b.1 := by
  have hb : b.1 < 3 * n + 2 := by
    have hmem : b.1 ∈ (ifsFn n).blocks.map BasicBlock.id := b.2
    rwa [ifsFn_ids, List.mem_range] at hmem
  have hfind : (ifsFn n).block? b.1 = some (ifBlock n b.1) :=
    Module.find?_of_mem_nodup (ifsCfg n).nodup (List.mem_map_of_mem (List.mem_range.mpr hb))
  have hsucc : (ifsFn n).successors b.1 = ifTargets n b.1 := by
    rw [Function.successors, hfind, ← successors_ifBlock]
  rw [Cfg.succ, List.map_pmap, List.pmap_eq_map, List.map_id']
  exact hsucc

theorem ne_of_val_lt {G : Cfg} {a b : G.Block} (h : a.1 < b.1) : a ≠ b :=
  fun hab => absurd (congrArg Subtype.val hab) (Nat.ne_of_lt h)

/-- **Each conditional doubles the calls** of a search that does not succeed: the search of its second branch does not
know what the first one has seen. -/
theorem calls_ifs {n : ℕ} {t : (ifsCfg n).Block} (ht : t.1 = 3 * n + 1) (j : ℕ) {i : ℕ} (hij : i + j = n)
    {b : (ifsCfg n).Block} (hb : b.1 = 3 * i) {visited : Finset (ifsCfg n).Block}
    (hvisited : ∀ v ∈ visited, v.1 < 3 * i) :
    hasPathCost (ifsCfg n) b t visited = ⟨false, 2 ^ (j + 2) - 3, 2 * j + 1⟩ := by
  induction j generalizing i b visited with
  | zero =>
    have hne : b ≠ t := ne_of_val_lt (by omega)
    have hsucc : (ifsCfg n).succ b = [] := by
      refine List.map_eq_nil_iff.mp ((map_succ_ifsCfg n b).trans ?_)
      exact if_neg (by omega)
    rw [hasPathCost, if_neg hne, hsucc]
    rfl
  | succ j ih =>
    -- the two branches, either of which goes on to the next conditional
    have hbranch : ∀ {x : (ifsCfg n).Block} {seen : Finset (ifsCfg n).Block}, 3 * i < x.1 → x.1 < 3 * i + 3 →
        (∀ v ∈ seen, v.1 < x.1) → hasPathCost (ifsCfg n) x t seen = ⟨false, 1 + (2 ^ (j + 2) - 3), 2 * j + 2⟩ := by
      intro x seen hlow hhigh hseen
      have htargets : ifTargets n x.1 = [3 * (i + 1)] := by
        rw [ifTargets, if_pos (by omega), if_neg (by omega)]
        exact congrArg (fun k => [k]) (by omega)
      obtain ⟨z, hz, hzval⟩ := List.map_eq_singleton_iff.mp ((map_succ_ifsCfg n x).trans htargets)
      have hbelow : ∀ v ∈ insert x seen, v.1 < 3 * (i + 1) := by
        intro v hv
        rcases Finset.mem_insert.mp hv with rfl | hv
        · omega
        · have hlt := hseen v hv
          omega
      refine hasPathCost_one (ne_of_val_lt (by omega)) hz (fun hmem => ?_) (ih (by omega) hzval hbelow)
      have hlt := hbelow z hmem
      omega
    have htargets : ifTargets n b.1 = [3 * i + 1, 3 * i + 2] := by
      rw [ifTargets, if_pos (by omega), if_pos (by omega), hb]
    obtain ⟨x, ys, hxys, hx, hys⟩ := List.map_eq_cons_iff.mp ((map_succ_ifsCfg n b).trans htargets)
    obtain ⟨y, rfl, hy⟩ := List.map_eq_singleton_iff.mp hys
    have hbelow : ∀ v ∈ insert b visited, v.1 < 3 * i + 1 := by
      intro v hv
      rcases Finset.mem_insert.mp hv with rfl | hv
      · omega
      · have hlt := hvisited v hv
        omega
    have hnew : ∀ z : (ifsCfg n).Block, 3 * i < z.1 → z ∉ insert b visited := by
      intro z hz hmem
      have hlt := hbelow z hmem
      omega
    have hcost : ∀ z : (ifsCfg n).Block, 3 * i < z.1 → z.1 < 3 * i + 3 →
        hasPathCost (ifsCfg n) z t (insert b visited) = ⟨false, 1 + (2 ^ (j + 2) - 3), 2 * j + 2⟩ := by
      intro z hlow hhigh
      refine hbranch hlow hhigh fun v hv => ?_
      have hlt := hbelow v hv
      omega
    rw [hasPathCost_two (ne_of_val_lt (by omega)) hxys (hnew x (by omega)) (hnew y (by omega))
      (hcost x (by omega) (by omega)) (hcost y (by omega) (by omega))]
    have hpow : 2 ^ (j + 1 + 2) = 2 * 2 ^ (j + 2) := by rw [Nat.add_right_comm, Nat.pow_succ, Nat.mul_comm]
    have hfour : 4 ≤ 2 ^ (j + 2) := by
      calc 4 = 2 ^ 2 := rfl
        _ ≤ 2 ^ (j + 2) := Nat.pow_le_pow_right (by omega) (by omega)
    rw [SearchCost.mk.injEq]
    exact ⟨rfl, by omega, by omega⟩

/-- **What a search costs**: it never nests deeper than there are blocks; but for every `n` there is a function with
`3 * n + 2` blocks, `n` conditionals one after the other, in which the search from the first block to one that it does
not lead to makes `2 ^ (n + 2) - 3` calls. -/
theorem hasPath_cost :
    (∀ (G : Cfg) (bb1 bb2 : G.Block) (visited : Finset G.Block),
      (hasPathCost G bb1 bb2 visited).found = hasPath G bb1 bb2 visited ∧
        (hasPathCost G bb1 bb2 visited).depth ≤ G.blocks.length) ∧
    ∀ n, ∃ (G : Cfg) (bb1 bb2 : G.Block), G.blocks.length = 3 * n + 2 ∧ bb1 ≠ bb2 ∧
      hasPathCost G bb1 bb2 ∅ = ⟨false, 2 ^ (n + 2) - 3, 2 * n + 1⟩ := by
  constructor
  · intro G bb1 bb2 visited
    exact ⟨hasPathCost_found bb1 bb2 visited, depth_le_length bb1 bb2 visited⟩
  · intro n
    have hmem : ∀ k, k < 3 * n + 2 → k ∈ (ifsCfg n).fn.blocks.map BasicBlock.id := by
      intro k hk
      show k ∈ (ifsFn n).blocks.map BasicBlock.id
      rw [ifsFn_ids, List.mem_range]
      exact hk
    refine ⟨ifsCfg n, ⟨0, hmem 0 (by omega)⟩, ⟨3 * n + 1, hmem _ (by omega)⟩, ?_, ?_, ?_⟩
    · rw [Cfg.blocks, List.length_attach, ← List.length_range (n := 3 * n + 2), ← ifsFn_ids]
      rfl
    · exact ne_of_val_lt (Nat.succ_pos _)
    · apply calls_ifs rfl n (Nat.zero_add n) rfl
      intro v hv
      cases hv

end SnippetsLlvm.CFGPath
