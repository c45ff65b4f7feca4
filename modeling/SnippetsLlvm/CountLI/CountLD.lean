import SnippetsLlvm.CFGPath.DumpCFGPath
import SnippetsLlvm.Ir.Verifier
import SnippetsLlvm.Library.NaturalLoops
import Mathlib.Data.List.MinMax

/-!
# The `count-li` pass

`CountLD` prints, for every block of a function, the predecessor and the preheader of the innermost loop of
the block.  Both lines come from `getLoopPreheader`, so that a loop entered by a conditional edge gets neither
of them.

* `LoopInfo` — the natural loops of a function, with `getLoopFor_eq_some`: the loop found for a block is the
  innermost one;
* `getLoopPredecessor`, `getLoopPreheader` — the block outside a loop that enters it, and the same block when
  it does nothing else;
* `runOnFunction` — the lines printed;
* `reportsLoops_iff` — **the report is right exactly for the functions all of whose uniquely entered loops
  have a preheader**.
-/

namespace SnippetsLlvm.CountLI

open SnippetsLlvm.Ir SnippetsLlvm.Library SnippetsLlvm.CFGPath

/-! ### Loops -/

/-- A loop: its header and its blocks. -/
structure Loop (G : Cfg) where
  header : G.Block
  blocks : Finset G.Block

/-- The natural-loop structure of a function, as `LoopInfo` computes it: one loop for every header of a back
edge. -/
structure LoopInfo (G : Cfg) where
  entry : G.Block
  isEntry : G.blocks.head? = some entry
  loops : List (Loop G)
  headers : (loops.map Loop.header).Nodup
  latched : ∀ L ∈ loops, ∃ l, Latch G.Edge entry L.header l
  body : ∀ L ∈ loops, ∀ b, b ∈ L.blocks ↔ LoopBody G.Edge entry L.header b
  complete : ∀ h l, Latch G.Edge entry h l → ∃ L ∈ loops, L.header = h

variable {G : Cfg}

/-- `LoopInfo::getLoopFor`: of the loops around a block, the one with the fewest blocks. -/
def LoopInfo.getLoopFor (LI : LoopInfo G) (B : G.Block) : Option (Loop G) :=
  (LI.loops.filter (B ∈ ·.blocks)).argmin (·.blocks.card)

/-- The blocks outside a loop with an edge to its header. -/
def Loop.outsidePreds (L : Loop G) : List G.Block :=
  G.blocks.filter fun P => P ∉ L.blocks ∧ L.header ∈ G.succ P

/-- `Loop::getLoopPredecessor`. -/
def Loop.getLoopPredecessor (L : Loop G) : Option G.Block :=
  match L.outsidePreds with
  | [P] => some P
  | _ => none

/-- `Loop::getLoopPreheader`.  Whether instructions may be hoisted into a block is
`BasicBlock::isLegalToHoistInto`. -/
def Loop.getLoopPreheader (isLegalToHoistInto : G.Block → Bool) (L : Loop G) : Option G.Block :=
  L.getLoopPredecessor.filter fun P => isLegalToHoistInto P && G.succ P = [L.header]

/-! ### The pass -/

/-- A line of the report. -/
inductive Line (G : Cfg) where
  | func
  | noLoop
  | block (B : G.Block)
  | pred (P : G.Block)
  | preheader (P : G.Block)
deriving DecidableEq

/-- The text of a line. -/
def Line.text : Line G → String
  | .func => "\nFunc: " ++ G.fn.name ++ "\n"
  | .noLoop => "no loop inside\n"
  | .block B => "BB: " ++ G.name B ++ "\n"
  | .pred P => "\tpred:" ++ G.name P ++ "\n"
  | .preheader P => "\tpreheader:" ++ G.name P ++ "\n"

variable (LI : LoopInfo G) (isLegalToHoistInto : G.Block → Bool)

/-- The lines that follow the one of the block `B`. -/
def loopLines (B : G.Block) : List (Line G) :=
  match LI.getLoopFor B with
  | none => []
  | some li =>
    -- the variable is `predBB`, the call is the one for the preheader
    let predBB := li.getLoopPreheader isLegalToHoistInto
    let preHeader := li.getLoopPreheader isLegalToHoistInto
    (predBB.map Line.pred).toList ++ (preHeader.map Line.preheader).toList

/-- **`CountLD::runOnFunction`**: the lines printed. -/
def runOnFunction : List (Line G) :=
  .func :: if LI.loops.isEmpty then [.noLoop]
    else G.blocks.flatMap fun B => .block B :: loopLines LI isLegalToHoistInto B

/-! ### What the report is for -/

/-- Whether a line begins the report on a block. -/
def Line.isBlock : Line G → Bool
  | .block _ => true
  | _ => false

/-- The lines printed for a block: those between its own line and the next block's. -/
def linesOf (B : G.Block) (lines : List (Line G)) : List (Line G) :=
  (lines.dropWhile (· ≠ .block B)).tail.takeWhile (!·.isBlock)

/-- `L` is the innermost loop of `B`: it lies inside all loops around `B`. -/
def LoopInfo.Innermost (B : G.Block) (L : Loop G) : Prop :=
  L ∈ LI.loops ∧ B ∈ L.blocks ∧ ∀ L' ∈ LI.loops, B ∈ L'.blocks → L.blocks ⊆ L'.blocks

/-- `P` is the only block outside the loop with an edge to the header. -/
def Loop.IsPredecessor (L : Loop G) (P : G.Block) : Prop :=
  P ∉ L.blocks ∧ G.Edge P L.header ∧ ∀ Q, Q ∉ L.blocks → G.Edge Q L.header → Q = P

/-- `P` is moreover a block with no other successor than the header. -/
def Loop.IsPreheader (L : Loop G) (P : G.Block) : Prop :=
  L.IsPredecessor P ∧ ∀ Q, G.Edge P Q → Q = L.header

/-- The report gives the predecessor and the preheader of the innermost loop of every block that is in a loop,
and nothing for the others. -/
structure ReportsLoops (lines : List (Line G)) : Prop where
  pred : ∀ B L, LI.Innermost B L → ∀ P, .pred P ∈ linesOf B lines ↔ L.IsPredecessor P
  preheader : ∀ B L, LI.Innermost B L → ∀ P, .preheader P ∈ linesOf B lines ↔ L.IsPreheader P
  outside : ∀ B, (∀ L ∈ LI.loops, B ∉ L.blocks) →
    ∀ P, .pred P ∉ linesOf B lines ∧ .preheader P ∉ linesOf B lines

/-! ### The loop of a block -/

variable {LI}

/-- Loops with the same blocks are the same. -/
theorem loop_ext {L L' : Loop G} (hL : L ∈ LI.loops) (hL' : L' ∈ LI.loops) (h : L.blocks = L'.blocks) :
    L = L' := by
  have hiff : ∀ b, LoopBody G.Edge LI.entry L.header b ↔ LoopBody G.Edge LI.entry L'.header b := by
    intro b
    rw [← LI.body L hL, ← LI.body L' hL', h]
  obtain ⟨l, hl⟩ := LI.latched L hL
  have hheader : L.header = L'.header :=
    LoopBody.header_unique hiff ⟨⟨l, hl⟩, hl.reached.tail hl.edge, .inl rfl⟩
  exact List.inj_on_of_nodup_map LI.headers hL hL' hheader

/-- Loops that share a block are nested. -/
theorem loops_nested {L L' : Loop G} {B : G.Block} (hL : L ∈ LI.loops) (hL' : L' ∈ LI.loops)
    (hB : B ∈ L.blocks) (hB' : B ∈ L'.blocks) : L.blocks ⊆ L'.blocks ∨ L'.blocks ⊆ L.blocks := by
  rcases loopBody_nested ((LI.body L hL B).mp hB) ((LI.body L' hL' B).mp hB') with h | h
  · refine .inr fun c hc => ?_
    exact (LI.body L hL c).mpr (h c ((LI.body L' hL' c).mp hc))
  · refine .inl fun c hc => ?_
    exact (LI.body L' hL' c).mpr (h c ((LI.body L hL c).mp hc))

theorem Innermost.unique {L L' : Loop G} {B : G.Block} (h : LI.Innermost B L) (h' : LI.Innermost B L') :
    L = L' :=
  loop_ext h.1 h'.1 (Finset.Subset.antisymm (h.2.2 L' h'.1 h'.2.1) (h'.2.2 L h.1 h.2.1))

/-- **`getLoopFor` finds the innermost loop.** -/
theorem getLoopFor_eq_some {B : G.Block} {L : Loop G} : LI.getLoopFor B = some L ↔ LI.Innermost B L := by
  have hfound : ∀ {L}, LI.getLoopFor B = some L → LI.Innermost B L := by
    intro L hL
    have hmem := List.argmin_mem (Option.mem_def.mpr hL)
    rw [List.mem_filter, decide_eq_true_iff] at hmem
    refine ⟨hmem.1, hmem.2, ?_⟩
    intro L' hL' hB'
    have hcard : L.blocks.card ≤ L'.blocks.card := by
      have hmem' : L' ∈ LI.loops.filter (B ∈ ·.blocks) := by
        rw [List.mem_filter, decide_eq_true_iff]
        exact ⟨hL', hB'⟩
      exact List.le_of_mem_argmin (f := fun L : Loop G => L.blocks.card) hmem' (Option.mem_def.mpr hL)
    rcases loops_nested hmem.1 hL' hmem.2 hB' with h | h
    · exact h
    · rw [Finset.eq_of_subset_of_card_le h hcard]
  constructor
  · exact hfound
  · intro h
    cases hfor : LI.getLoopFor B with
    | none =>
      have hnil := List.argmin_eq_none.mp hfor
      have hmem : L ∈ LI.loops.filter (B ∈ ·.blocks) := by
        rw [List.mem_filter, decide_eq_true_iff]
        exact ⟨h.1, h.2.1⟩
      rw [hnil] at hmem
      cases hmem
    | some L' => rw [Innermost.unique (hfound hfor) h]

theorem getLoopFor_eq_none {B : G.Block} (h : ∀ L ∈ LI.loops, B ∉ L.blocks) : LI.getLoopFor B = none := by
  cases hfor : LI.getLoopFor B with
  | none => rfl
  | some L =>
    have hL := getLoopFor_eq_some.mp hfor
    exact absurd hL.2.1 (h L hL.1)

/-! ### The blocks that enter a loop -/

theorem mem_outsidePreds {L : Loop G} {P : G.Block} :
    P ∈ L.outsidePreds ↔ P ∉ L.blocks ∧ G.Edge P L.header := by
  rw [Loop.outsidePreds, List.mem_filter, decide_eq_true_iff]
  exact and_iff_right (G.mem_blocks P)

/-- **`getLoopPredecessor` gives the unique outside predecessor of the header.** -/
theorem getLoopPredecessor_eq_some {L : Loop G} {P : G.Block} :
    L.getLoopPredecessor = some P ↔ L.IsPredecessor P := by
  have hnodup : L.outsidePreds.Nodup := G.blocks_nodup.filter _
  have hsingle : L.getLoopPredecessor = some P ↔ L.outsidePreds = [P] := by
    rw [Loop.getLoopPredecessor]
    split
    · rename_i Q hQ
      rw [hQ, Option.some.injEq, List.cons.injEq]
      exact (and_iff_left rfl).symm
    · rename_i hno
      constructor
      · intro h
        cases h
      · intro h
        exact absurd h (hno P)
  rw [hsingle]
  constructor
  · intro h
    have hP := mem_outsidePreds.mp (h ▸ List.mem_singleton_self P)
    refine ⟨hP.1, hP.2, ?_⟩
    intro Q hQ hedge
    have hmem : Q ∈ L.outsidePreds := mem_outsidePreds.mpr ⟨hQ, hedge⟩
    rw [h] at hmem
    exact List.mem_singleton.mp hmem
  · rintro ⟨hP, hedge, honly⟩
    refine List.perm_singleton.mp ((List.perm_ext_iff_of_nodup hnodup (List.nodup_singleton P)).mpr ?_)
    intro Q
    rw [mem_outsidePreds, List.mem_singleton]
    constructor
    · rintro ⟨hQ, hQedge⟩
      exact honly Q hQ hQedge
    · rintro rfl
      exact ⟨hP, hedge⟩

variable {isLegalToHoistInto : G.Block → Bool}

/-- **`getLoopPreheader` gives the predecessor when it may be hoisted into and does nothing else.** -/
theorem getLoopPreheader_eq_some {L : Loop G} {P : G.Block} :
    L.getLoopPreheader isLegalToHoistInto = some P ↔
      L.IsPredecessor P ∧ isLegalToHoistInto P = true ∧ G.succ P = [L.header] := by
  rw [Loop.getLoopPreheader, Option.filter_eq_some_iff, getLoopPredecessor_eq_some, Bool.and_eq_true,
    decide_eq_true_iff]

/-! ### The lines of a block -/

theorem pred_mem_loopLines {B P : G.Block} {L : Loop G} (h : LI.Innermost B L) :
    .pred P ∈ loopLines LI isLegalToHoistInto B ↔ L.getLoopPreheader isLegalToHoistInto = some P := by
  rw [loopLines, getLoopFor_eq_some.mpr h]
  simp [eq_comm]

theorem preheader_mem_loopLines {B P : G.Block} {L : Loop G} (h : LI.Innermost B L) :
    .preheader P ∈ loopLines LI isLegalToHoistInto B ↔ L.getLoopPreheader isLegalToHoistInto = some P := by
  rw [loopLines, getLoopFor_eq_some.mpr h]
  simp [eq_comm]

theorem loopLines_isBlock {B : G.Block} : ∀ l ∈ loopLines LI isLegalToHoistInto B, l.isBlock = false := by
  intro l hl
  rw [loopLines] at hl
  split at hl
  · cases hl
  · simp only [List.mem_append, Option.mem_toList, Option.map_eq_some_iff] at hl
    rcases hl with ⟨P, -, rfl⟩ | ⟨P, -, rfl⟩
    · rfl
    · rfl

/-- **The lines printed for a block**, in a function with loops. -/
theorem linesOf_runOnFunction (h : LI.loops ≠ []) (B : G.Block) :
    linesOf B (runOnFunction LI isLegalToHoistInto) = loopLines LI isLegalToHoistInto B := by
  obtain ⟨xs, ys, hsplit⟩ := List.append_of_mem (G.mem_blocks B)
  have hnodup := G.blocks_nodup
  rw [hsplit] at hnodup
  have hB : B ∉ xs := fun hmem => List.disjoint_of_nodup_append hnodup hmem List.mem_cons_self
  have hbefore : ∀ l ∈ xs.flatMap fun C => .block C :: loopLines LI isLegalToHoistInto C,
      decide (l ≠ .block B) = true := by
    intro l hl
    obtain ⟨C, hC, hl⟩ := List.mem_flatMap.mp hl
    rw [decide_eq_true_iff]
    rintro rfl
    rcases List.mem_cons.mp hl with hl | hl
    · cases hl
      exact hB hC
    · exact absurd (loopLines_isBlock _ hl) (by simp [Line.isBlock])
  have hafter : (ys.flatMap fun C => .block C :: loopLines LI isLegalToHoistInto C).takeWhile
      (!·.isBlock) = [] := by
    cases ys with
    | nil => rfl
    | cons C ys => rfl
  have hlines : ∀ l ∈ loopLines LI isLegalToHoistInto B, (!l.isBlock) = true := by
    intro l hl
    rw [loopLines_isBlock l hl]
    rfl
  rw [linesOf, runOnFunction, if_neg (by simpa using h), hsplit, List.flatMap_append, List.flatMap_cons,
    List.dropWhile_cons_of_pos (by simp), List.dropWhile_append_of_pos hbefore, List.cons_append,
    List.dropWhile_cons_of_neg (by simp), List.tail_cons, List.takeWhile_append_of_pos hlines, hafter,
    List.append_nil]

/-! ### The report -/

/-- **The predecessor line and the preheader line of a block are printed for the same block, or not at all.** -/
theorem pred_iff_preheader {B : G.Block} {L : Loop G} (h : LI.Innermost B L) (P : G.Block) :
    .pred P ∈ linesOf B (runOnFunction LI isLegalToHoistInto) ↔
      .preheader P ∈ linesOf B (runOnFunction LI isLegalToHoistInto) := by
  rw [linesOf_runOnFunction (List.ne_nil_of_mem h.1), pred_mem_loopLines h, preheader_mem_loopLines h]

/-- **The report is right exactly for the functions all of whose uniquely entered loops have a preheader**:
when the header of the innermost loop of a block has a single predecessor outside the loop, that block may be
hoisted into and goes to the header only. -/
theorem reportsLoops_iff (LI : LoopInfo G) (isLegalToHoistInto : G.Block → Bool) :
    ReportsLoops LI (runOnFunction LI isLegalToHoistInto) ↔
      ∀ B L P, LI.Innermost B L → L.IsPredecessor P →
        isLegalToHoistInto P = true ∧ G.succ P = [L.header] := by
  constructor
  · intro h B L P hL hP
    have hline := (h.pred B L hL P).mpr hP
    rw [linesOf_runOnFunction (List.ne_nil_of_mem hL.1), pred_mem_loopLines hL,
      getLoopPreheader_eq_some] at hline
    exact hline.2
  · intro h
    have hpred : ∀ B L, LI.Innermost B L → ∀ P,
        .pred P ∈ linesOf B (runOnFunction LI isLegalToHoistInto) ↔ L.IsPredecessor P := by
      intro B L hL P
      rw [linesOf_runOnFunction (List.ne_nil_of_mem hL.1), pred_mem_loopLines hL, getLoopPreheader_eq_some]
      exact and_iff_left_of_imp (h B L P hL)
    refine ⟨hpred, ?_, ?_⟩
    · intro B L hL P
      rw [← pred_iff_preheader hL, hpred B L hL P, Loop.IsPreheader]
      refine (and_iff_left_of_imp fun hP => ?_).symm
      intro Q hQ
      rw [Cfg.Edge, (h B L P hL hP).2] at hQ
      exact List.mem_singleton.mp hQ
    · intro B hB P
      by_cases hloops : LI.loops = []
      · have hlines : linesOf B (runOnFunction LI isLegalToHoistInto) = [] := by
          rw [linesOf, runOnFunction, hloops]
          rfl
        rw [hlines]
        exact ⟨List.not_mem_nil, List.not_mem_nil⟩
      · rw [linesOf_runOnFunction hloops, loopLines, getLoopFor_eq_none hB]
        exact ⟨List.not_mem_nil, List.not_mem_nil⟩

/-! ### A loop entered by a conditional edge -/

/-- `void spin(bool a, bool b) { if (a) while (b); }`, without a block of its own before the loop. -/
def spinFn : Function :=
  ⟨0, "spin", ⟨.void, [.integer 1, .integer 1], false⟩, .external, ⟨[], []⟩, false, 0, none, none, none, none,
    [⟨0, "entry", [⟨0, .br, .void, [.arg 0 (.integer 1), .block 1, .block 2], false⟩]⟩,
      ⟨1, "loop", [⟨1, .br, .void, [.arg 1 (.integer 1), .block 1, .block 2], false⟩]⟩,
      ⟨2, "exit", [⟨2, .ret, .void, [], false⟩]⟩], 3, 3⟩

/-- The module of `spinFn`. -/
def spinModule : Module := ⟨[spinFn], [], [], [], [], 1, 0⟩

/-- The control-flow graph of `spinFn`. -/
def spinCfg : Cfg := ⟨spinFn, by decide, by decide⟩

/-- The blocks of `spinFn`. -/
def spinEntry : spinCfg.Block := ⟨0, by decide⟩
/-- The header. -/
def spinLoop : spinCfg.Block := ⟨1, by decide⟩
/-- The exit. -/
def spinExit : spinCfg.Block := ⟨2, by decide⟩

theorem spin_edge : ∀ {a b : spinCfg.Block}, spinCfg.Edge a b →
    (a = spinEntry ∨ a = spinLoop) ∧ (b = spinLoop ∨ b = spinExit) := by
  simp only [Cfg.Edge]
  decide

theorem spin_edge_entry : spinCfg.Edge spinEntry spinLoop := by
  show spinLoop ∈ _
  decide

theorem spin_edge_loop : spinCfg.Edge spinLoop spinLoop := by
  show spinLoop ∈ _
  decide

/-- The loop is closed by the edge of its header to itself, and no other edge closes a loop. -/
theorem spin_latch {h l : spinCfg.Block} :
    Latch spinCfg.Edge spinEntry h l ↔ h = spinLoop ∧ l = spinLoop := by
  have hreach : Relation.ReflTransGen spinCfg.Edge spinEntry spinLoop := .single spin_edge_entry
  constructor
  · rintro ⟨hedge, hdom, -⟩
    obtain ⟨rfl | rfl, hh⟩ := spin_edge hedge
    · have hentry := hdom .refl
      subst hentry
      exact absurd hh (by decide)
    · rcases hh with rfl | rfl
      · exact ⟨rfl, rfl⟩
      · have hentry := hdom (.single ⟨spin_edge_entry, by simp [spinLoop, spinExit]⟩)
        exact absurd hentry (by decide)
  · rintro ⟨rfl, rfl⟩
    exact ⟨spin_edge_loop, dominates_self _, hreach⟩

/-- The loop of `spinFn`. -/
def spinLI : LoopInfo spinCfg where
  entry := spinEntry
  isEntry := by decide
  loops := [⟨spinLoop, {spinLoop}⟩]
  headers := List.nodup_singleton _
  latched := by
    intro L hL
    rw [List.mem_singleton.mp hL]
    exact ⟨spinLoop, spin_latch.mpr ⟨rfl, rfl⟩⟩
  body := by
    intro L hL b
    rw [List.mem_singleton.mp hL, Finset.mem_singleton]
    have hlatch : Latch spinCfg.Edge spinEntry spinLoop spinLoop := spin_latch.mpr ⟨rfl, rfl⟩
    constructor
    · rintro rfl
      exact ⟨⟨_, hlatch⟩, hlatch.reached, .inl rfl⟩
    · rintro ⟨-, -, rfl | ⟨l, hl, hbl⟩⟩
      · rfl
      · obtain ⟨-, rfl⟩ := spin_latch.mp hl
        exact eq_of_avoiding_self hbl
  complete := by
    intro h l hlatch
    exact ⟨_, List.mem_singleton_self _, (spin_latch.mp hlatch).1.symm⟩

/-- The header has one predecessor outside the loop and neither line is printed, as it has another
successor. -/
theorem reportsLoops_spin : spinModule.WellFormed ∧
    runOnFunction spinLI (fun _ => true) =
      [.func, .block spinEntry, .block spinLoop, .block spinExit] ∧
    (∃ L, spinLI.Innermost spinLoop L ∧ L.IsPredecessor spinEntry) ∧
    ¬ ReportsLoops spinLI (runOnFunction spinLI fun _ => true) := by
  have hinner : spinLI.Innermost spinLoop ⟨spinLoop, {spinLoop}⟩ := by
    refine ⟨List.mem_singleton_self _, Finset.mem_singleton_self _, ?_⟩
    intro L' hL' _
    rw [List.mem_singleton.mp hL']
  have hpred : Loop.IsPredecessor ⟨spinLoop, {spinLoop}⟩ spinEntry := by
    refine ⟨by decide, spin_edge_entry, ?_⟩
    intro Q hQ hedge
    rcases (spin_edge hedge).1 with rfl | rfl
    · rfl
    · exact absurd (Finset.mem_singleton_self _) hQ
  have hlines : runOnFunction spinLI (fun _ => true) =
      [.func, .block spinEntry, .block spinLoop, .block spinExit] := by
    decide
  refine ⟨Module.Verified.wellFormed (by decide), hlines, ⟨_, hinner, hpred⟩, ?_⟩
  intro h
  have hline := (h.pred _ _ hinner _).mpr hpred
  rw [hlines] at hline
  revert hline
  decide

end SnippetsLlvm.CountLI
