import SnippetsLlvm.CountLI.CountLD
import SnippetsLlvm.CFGPath.Execution

/-!
# The report of `count-li` and the runs of a module

The block that `count-li` prints for a block of a loop is the only one from which the loop is entered, so it
dominates the loop.  On a run that means that it ran before.

* `line_inv` — what a printed line says about the innermost loop;
* `printed_dominates` — the block printed dominates the block it is printed for;
* `printed_ran` — **before a block runs, the block printed for it has run**.
-/

namespace SnippetsLlvm.CountLI

open SnippetsLlvm.Ir SnippetsLlvm.Library SnippetsLlvm.CFGPath

variable {G : Cfg} {LI : LoopInfo G} {isLegalToHoistInto : G.Block → Bool} {B P : G.Block}

/-! ### What is printed -/

/-- The two lines that name a block are printed for the preheader of the innermost loop. -/
theorem line_inv (h : .pred P ∈ linesOf B (runOnFunction LI isLegalToHoistInto) ∨
      .preheader P ∈ linesOf B (runOnFunction LI isLegalToHoistInto)) :
    ∃ L, LI.Innermost B L ∧ L.IsPredecessor P := by
  by_cases hloops : LI.loops = []
  · have hlines : linesOf B (runOnFunction LI isLegalToHoistInto) = [] := by
      rw [linesOf, runOnFunction, hloops]
      rfl
    rw [hlines] at h
    rcases h with h | h
    · cases h
    · cases h
  · rw [linesOf_runOnFunction hloops] at h
    cases hfor : LI.getLoopFor B with
    | none =>
      rw [loopLines, hfor] at h
      rcases h with h | h
      · cases h
      · cases h
    | some L =>
      have hL := getLoopFor_eq_some.mp hfor
      rw [pred_mem_loopLines hL, preheader_mem_loopLines hL, or_self, getLoopPreheader_eq_some] at h
      exact ⟨L, hL, h.1⟩

/-- The header of a loop is not the entry, where the entry has no predecessors. -/
theorem entry_ne_header {M : Module} (hF : G.fn.WellFormed M) {L : Loop G} (hL : L ∈ LI.loops) :
    LI.entry ≠ L.header := by
  intro heq
  obtain ⟨l, hl⟩ := LI.latched L hL
  have hedge := G.edge_iff.mp hl.edge
  rw [← heq, Function.successors] at hedge
  split at hedge
  · rename_i C hC
    have hhead : G.fn.blocks.head?.map BasicBlock.id = some LI.entry.1 := by
      have hentry := congrArg (Option.map Subtype.val) LI.isEntry
      rwa [G.map_val_head?] at hentry
    obtain ⟨E, hE, hid⟩ := Option.map_eq_some_iff.mp hhead
    refine hF.entryPreds E hE C (List.mem_of_find?_eq_some hC) ?_
    rwa [hid]
  · cases hedge

/-- **The block printed for a block dominates it**, and is another one. -/
theorem printed_dominates {M : Module} (hF : G.fn.WellFormed M)
    (h : .pred P ∈ linesOf B (runOnFunction LI isLegalToHoistInto) ∨
      .preheader P ∈ linesOf B (runOnFunction LI isLegalToHoistInto)) :
    P ≠ B ∧ Dominates G.Edge LI.entry P B := by
  obtain ⟨L, hL, hP⟩ := line_inv h
  constructor
  · rintro rfl
    exact hP.1 hL.2.1
  · refine ((LI.body L hL.1 B).mp hL.2.1).dominates_of_entered (entry_ne_header hF hL.1) ?_
    intro Q hQ hedge
    refine hP.2.2 Q (fun hmem => hQ ((LI.body L hL.1 Q).mp hmem)) hedge

/-! ### What has run -/

/-- **Before a block runs, the block that `count-li` prints for it has run**, on every run and whatever the environment
does: a loop is entered through its printed predecessor. -/
theorem printed_ran {M : Module} {D : DataOps} (hM : M.WellFormed)
    (hto : ∀ F ∈ M.functions, ∀ I ∈ F.insts, I.GoesToBlocks) (hD : D.FollowsTargets)
    {imports : ℕ → Option D.Content} {es₁ es₂ : List (Event D)} {g b : ℕ} {is : List Instruction}
    {vs : List (Val D.Data)} {s : State D}
    (hrun : Run M.step (M.initState imports) (es₁ ++ .exec g b is vs :: es₂) s) {G : Cfg}
    (hG : M.function? g = some G.fn) (LI : LoopInfo G) (isLegalToHoistInto : G.Block → Bool) {B P : G.Block}
    (hB : B.1 = b) (h : .pred P ∈ linesOf B (runOnFunction LI isLegalToHoistInto) ∨
      .preheader P ∈ linesOf B (runOnFunction LI isLegalToHoistInto)) :
    Ran es₁ g P.1 := by
  obtain ⟨F, E, hF, hE, hpath⟩ := came_of_exec hM hD hto hrun
  obtain rfl : G.fn = F := by
    rw [hG, Option.some.injEq] at hF
    exact hF
  have hentry : LI.entry.1 = E.id := by
    have hhead := congrArg (Option.map Subtype.val) LI.isEntry
    rw [G.map_val_head?, hE] at hhead
    exact (Option.some.inj hhead).symm
  obtain ⟨hne, hdom⟩ := printed_dominates (hM.functions _ (Module.mem_of_function? hG).1) h
  refine hdom.marked (S := fun x => Ran es₁ g x.1) hne ?_
  rw [← hentry, ← hB] at hpath
  rcases Relation.reflTransGen_iff_eq_or_transGen.mp hpath with heq | hpath
  · rw [Subtype.ext heq]
  · refine ((transGen_map (fun x y => ?_) (fun x y hxy => ?_) _ _).mpr hpath).to_reflTransGen
    · exact and_congr G.edge_iff Iff.rfl
    · exact G.successors_closed x y hxy.1

/-! ### The loop that is left -/

/-- The control-flow graph of `wait`. -/
def waitCfg : Cfg := ⟨waitFn, by decide, by decide⟩

/-- The block before the loop. -/
def waitEntry : waitCfg.Block := ⟨0, by decide⟩

/-- The loop. -/
def waitLoop : waitCfg.Block := ⟨1, by decide⟩

theorem wait_edge_entry : waitCfg.Edge waitEntry waitLoop := by
  show waitLoop ∈ _
  decide

theorem wait_edge : ∀ {a b : waitCfg.Block}, waitCfg.Edge a b → b ≠ waitEntry ∧ (a = waitEntry ∨ a = waitLoop) := by
  simp only [Cfg.Edge]
  decide

/-- The only edge that closes a loop is the one from the loop to itself. -/
theorem wait_latch {h l : waitCfg.Block} :
    Latch waitCfg.Edge waitEntry h l ↔ h = waitLoop ∧ l = waitLoop := by
  constructor
  · rintro ⟨hedge, hdom, -⟩
    obtain ⟨hh, rfl | rfl⟩ := wait_edge hedge
    · exact absurd (hdom .refl).symm hh
    · by_cases heq : h = waitLoop
      · exact ⟨heq, rfl⟩
      · exact absurd (hdom (.single ⟨wait_edge_entry, Ne.symm heq⟩)).symm hh
  · rintro ⟨rfl, rfl⟩
    refine ⟨?_, dominates_self _, .single wait_edge_entry⟩
    show waitLoop ∈ _
    decide

/-- The loop structure of `wait`. -/
def waitLI : LoopInfo waitCfg where
  entry := waitEntry
  isEntry := by decide
  loops := [⟨waitLoop, {waitLoop}⟩]
  headers := List.nodup_singleton _
  latched := by
    intro L hL
    rw [List.mem_singleton.mp hL]
    exact ⟨waitLoop, wait_latch.mpr ⟨rfl, rfl⟩⟩
  body := by
    intro L hL b
    rw [List.mem_singleton.mp hL, Finset.mem_singleton]
    have hlatch : Latch waitCfg.Edge waitEntry waitLoop waitLoop := wait_latch.mpr ⟨rfl, rfl⟩
    constructor
    · rintro rfl
      exact ⟨⟨_, hlatch⟩, hlatch.reached, .inl rfl⟩
    · rintro ⟨-, -, rfl | ⟨l, hl, hbl⟩⟩
      · rfl
      · obtain ⟨-, rfl⟩ := wait_latch.mp hl
        exact eq_of_avoiding_self hbl
  complete := by
    intro h l hlatch
    exact ⟨_, List.mem_singleton_self _, (wait_latch.mp hlatch).1.symm⟩

theorem printed_ran_wait : ∃ es₁ es₂ is vs s, Run (waitModule.step (D := wordSem.toDataOps))
    (waitModule.initState fun _ => none) (es₁ ++ .exec 0 1 is vs :: es₂) s ∧
    .preheader waitEntry ∈ linesOf waitLoop (runOnFunction waitLI fun _ => true) ∧ Ran es₁ 0 waitEntry.1 := by
  obtain ⟨es, s, hrun, hran⟩ := exists_run_wait
  obtain ⟨is, vs, he⟩ := hran 1 (by decide)
  obtain ⟨es₁, es₂, rfl⟩ := List.append_of_mem he
  have hline : .preheader waitEntry ∈ linesOf waitLoop (runOnFunction waitLI fun _ => true) := by decide
  exact ⟨es₁, es₂, is, vs, s, hrun, hline, printed_ran wellFormed_waitModule goesToBlocks_waitModule
    followsTargets_words hrun (G := waitCfg) rfl waitLI (fun _ => true) (B := waitLoop) rfl (.inr hline)⟩

end SnippetsLlvm.CountLI
