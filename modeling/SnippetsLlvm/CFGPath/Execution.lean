import SnippetsLlvm.CFGPath.DumpCFGPath
import SnippetsLlvm.Ir.Flow
import SnippetsLlvm.Ir.Verifier
import SnippetsLlvm.Ir.WordData

/-!
# The report of `cfg-path` and the runs of a module

The report is about the graph, and the graph is about runs: a block that runs was come to along edges of the
graph, so it is the entry of its function or listed in the line of the entry.  A block that is neither is dead.

* `mem_listed_iff` — the blocks listed are those with a path in terms of block numbers;
* `executed_listed` — **every block that runs is the entry or listed for it**.
-/

namespace SnippetsLlvm.CFGPath

open SnippetsLlvm.Ir SnippetsLlvm.Library

/-! ### What is listed for a block -/

theorem mem_listed_iff {G : Cfg} {B1 B2 : G.Block} : B2 ∈ listed G ∅ B1 ↔ B1.1 ≠ B2.1 ∧
    Relation.TransGen (fun a b => b ∈ G.fn.successors a) B1.1 B2.1 := by
  rw [listed_eq_reachable, mem_reachable, Ne, Subtype.ext_iff]
  exact and_congr Iff.rfl (transGen_map (fun _ _ => G.edge_iff) (fun a b hab => G.successors_closed a b hab) B1 B2)

/-- What a path leads to is the block it starts from, or listed for it. -/
theorem listed_of_path {G : Cfg} {E : G.Block} {b : ℕ}
    (h : Relation.ReflTransGen (fun a b => b ∈ G.fn.successors a) E.1 b) :
    ∃ B : G.Block, B.1 = b ∧ (B = E ∨ B ∈ listed G ∅ E) := by
  by_cases hb : E.1 = b
  · exact ⟨E, hb, .inl rfl⟩
  · have hpath := (Relation.reflTransGen_iff_eq_or_transGen.mp h).resolve_left (Ne.symm hb)
    obtain ⟨a, -, hab⟩ := Relation.TransGen.tail'_iff.mp hpath
    exact ⟨⟨b, G.successors_closed a b hab⟩, rfl, .inr (mem_listed_iff.mpr ⟨hb, hpath⟩)⟩

/-- The first block is that of the function. -/
theorem Cfg.map_val_head? (G : Cfg) :
    G.blocks.head?.map Subtype.val = G.fn.blocks.head?.map BasicBlock.id := by
  rw [← List.head?_map, Cfg.blocks, List.attach_map_subtype_val, List.head?_map]

/-! ### What runs -/

/-- **Every block that runs is the entry of its function or listed for it**, on every run and whatever the
environment does: a block that `cfg-path` does not list for the entry never runs. -/
theorem executed_listed {M : Module} {D : DataOps} (hM : M.WellFormed)
    (hto : ∀ F ∈ M.functions, ∀ I ∈ F.insts, I.GoesToBlocks) (hD : D.FollowsTargets)
    {imports : ℕ → Option D.Content} {es : List (Event D)} {s : State D}
    (hrun : Run M.step (M.initState imports) es s) {g b : ℕ} {is : List Instruction} {vs : List (Val D.Data)}
    (he : .exec g b is vs ∈ es) :
    ∃ G : Cfg, G.fn ∈ M.functions ∧ G.fn.id = g ∧ ∃ E B : G.Block,
      G.blocks.head? = some E ∧ B.1 = b ∧ (B = E ∨ B ∈ listed G ∅ E) := by
  obtain ⟨es₁, es₂, rfl⟩ := List.append_of_mem he
  obtain ⟨F, E, hF, hE, hpath⟩ := came_of_exec hM hD hto hrun
  obtain ⟨hmem, hid⟩ := Module.mem_of_function? hF
  let G : Cfg := Cfg.ofFunction (hM.functions F hmem)
  have hEmem : E.id ∈ G.fn.blocks.map BasicBlock.id := List.mem_map_of_mem (List.mem_of_head? hE)
  have hhead : G.blocks.head? = some ⟨E.id, hEmem⟩ := by
    have hids : G.blocks.head?.map Subtype.val = some E.id := by
      rw [G.map_val_head?]
      exact congrArg (Option.map BasicBlock.id) hE
    obtain ⟨B, hB, hval⟩ := Option.map_eq_some_iff.mp hids
    rw [hB]
    exact congrArg some (Subtype.ext hval)
  obtain ⟨B, hB, hlisted⟩ := listed_of_path (G := G) (E := ⟨E.id, hEmem⟩)
    (Relation.ReflTransGen.mono (fun _ _ hab => hab.1) _ _ hpath)
  exact ⟨G, hmem, hid, _, B, hhead, hB, hlisted⟩

/-! ### A loop that is left -/

/-- `void wait(bool b) { while (b); }`. -/
def waitFn : Function :=
  ⟨0, "wait", ⟨.void, [.integer 1], false⟩, .external, ⟨[], []⟩, false, 0, none, none, none, none,
    [⟨0, "entry", [⟨0, .br, .void, [.block 1], false⟩]⟩,
      ⟨1, "loop", [⟨1, .br, .void, [.arg 0 (.integer 1), .block 2, .block 1], false⟩]⟩,
      ⟨2, "exit", [⟨2, .ret, .void, [], false⟩]⟩], 3, 3⟩

/-- The module of `waitFn`. -/
def waitModule : Module := ⟨[waitFn], [], [], [], [], 1, 0⟩

theorem wellFormed_waitModule : waitModule.WellFormed := Module.Verified.wellFormed (by decide)

theorem goesToBlocks_waitModule : ∀ F ∈ waitModule.functions, ∀ I ∈ F.insts, I.GoesToBlocks := by
  intro F hF I hI
  rw [List.mem_singleton.mp hF] at hI
  simp only [waitFn, Function.insts, List.flatMap_cons, List.flatMap_nil, List.append_nil, List.cons_append,
    List.nil_append, List.mem_cons, List.not_mem_nil, or_false] at hI
  rcases hI with rfl | rfl | rfl
  · exact .inl ⟨1, rfl⟩
  · exact .inr ⟨_, 2, 1, rfl⟩
  · trivial

theorem followsTargets_words : wordSem.toDataOps.FollowsTargets where
  dispatch _ _ _ _ _ h := by cases h
  asmTarget _ _ _ h := by cases h

/-- The environment calls `wait(false)`, which goes around the loop once. -/
def waitActs : List (Act wordSem.toDataOps) := [.callback 0 [.int 1 0], .tick, .tick, .tick]

/-- The blocks that run. -/
def waitBlocks : Option (List ℕ) :=
  (follow waitModule.step (waitModule.initState fun _ => none) waitActs).map fun r =>
    r.1.filterMap fun
      | .exec 0 b _ _ => some b
      | _ => none

/-- All three blocks run. -/
theorem exists_run_wait : ∃ es s, Run (waitModule.step (D := wordSem.toDataOps))
    (waitModule.initState fun _ => none) es s ∧ ∀ b ∈ [0, 1, 2], ∃ is vs, .exec 0 b is vs ∈ es := by
  have hblocks : waitBlocks = some [0, 1, 2] := by rfl
  rw [waitBlocks, Option.map_eq_some_iff] at hblocks
  obtain ⟨⟨es, s⟩, hfollow, hran⟩ := hblocks
  refine ⟨es, s, Run.of_follow hfollow, fun b hb => ?_⟩
  rw [← hran, List.mem_filterMap] at hb
  obtain ⟨e, he, hblock⟩ := hb
  split at hblock
  · cases hblock
    exact ⟨_, _, he⟩
  · cases hblock

theorem executed_listed_wait : ∃ es s, Run (waitModule.step (D := wordSem.toDataOps))
    (waitModule.initState fun _ => none) es s ∧ (∃ is vs, .exec 0 2 is vs ∈ es) ∧
    ∃ G : Cfg, G.fn ∈ waitModule.functions ∧ G.fn.id = 0 ∧ ∃ E B : G.Block,
      G.blocks.head? = some E ∧ B.1 = 2 ∧ (B = E ∨ B ∈ listed G ∅ E) := by
  obtain ⟨es, s, hrun, hran⟩ := exists_run_wait
  obtain ⟨is, vs, he⟩ := hran 2 (by decide)
  exact ⟨es, s, hrun, ⟨is, vs, he⟩,
    executed_listed wellFormed_waitModule goesToBlocks_waitModule followsTargets_words hrun he⟩

end SnippetsLlvm.CFGPath
