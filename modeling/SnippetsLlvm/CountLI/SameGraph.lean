import SnippetsLlvm.CountLI.CountLD
import SnippetsLlvm.CFGPath.SameGraph

/-!
# The report of `count-li` depends on the graph only

The report is computed from the loop structure, which the analysis may hand over in any order, and from the
terminators.  So it is the same for all loop structures of a function, and for all functions with the same
control-flow graph.

* `exists_loopInfo` — every function with a body has a loop structure;
* `Innermost.map` — the innermost loops of two functions with the same graph correspond;
* `text_congr` — **the text is the same**;
* `Reports` — the paragraphs `count-li` prints for a module, with `reports_exists_unique`.
-/

namespace SnippetsLlvm.CountLI

open SnippetsLlvm.Ir SnippetsLlvm.Library SnippetsLlvm.CFGPath

/-! ### Every function with a body has a loop structure -/

section Exists

open Classical

variable (G : Cfg) (entry : G.Block)

/-- The natural loop of a header. -/
noncomputable def naturalLoop (h : G.Block) : Loop G :=
  ⟨h, Finset.univ.filter fun b => LoopBody G.Edge entry h b⟩

/-- The headers of back edges. -/
noncomputable def loopHeaders : List G.Block :=
  G.blocks.filter fun h => decide (∃ l, Latch G.Edge entry h l)

theorem mem_loopHeaders {h : G.Block} : h ∈ loopHeaders G entry ↔ ∃ l, Latch G.Edge entry h l := by
  rw [loopHeaders, List.mem_filter, decide_eq_true_iff]
  exact and_iff_right (G.mem_blocks h)

theorem exists_loopInfo {entry : G.Block} (hentry : G.blocks.head? = some entry) : Nonempty (LoopInfo G) := by
  refine ⟨⟨entry, hentry, (loopHeaders G entry).map (naturalLoop G entry), ?_, ?_, ?_, ?_⟩⟩
  · rw [List.map_map]
    show ((loopHeaders G entry).map id).Nodup
    rw [List.map_id]
    exact G.blocks_nodup.filter _
  · intro L hL
    obtain ⟨h, hh, rfl⟩ := List.mem_map.mp hL
    exact (mem_loopHeaders G entry).mp hh
  · intro L hL b
    obtain ⟨h, hh, rfl⟩ := List.mem_map.mp hL
    simp [naturalLoop]
  · intro h l hlatch
    exact ⟨_, List.mem_map_of_mem ((mem_loopHeaders G entry).mpr ⟨l, hlatch⟩), rfl⟩

end Exists

/-! ### The text -/

/-- The text of the lines. -/
def text {G : Cfg} (lines : List (Line G)) : String := String.join (lines.map Line.text)

/-- `BasicBlock::isLegalToHoistInto` looks at the terminator of a block. -/
def legalIn (isLegalToHoistInto : Option Instruction → Bool) (G : Cfg) (b : G.Block) : Bool :=
  isLegalToHoistInto ((G.fn.block? b.1).bind BasicBlock.getTerminator)

variable {G G' : Cfg}

/-! ### Corresponding loops -/

section Loops

variable (h : SameGraph G.fn G'.fn)

/-- The corresponding loop. -/
def Loop.map (L : Loop G) : Loop G' :=
  ⟨h.iso L.header, L.blocks.map h.iso.toEquiv.toEmbedding⟩

variable {LI : LoopInfo G} {LI' : LoopInfo G'}

theorem mem_map_blocks {L : Loop G} {b : G.Block} : h.iso b ∈ (L.map h).blocks ↔ b ∈ L.blocks :=
  Finset.mem_map' _

include h in
theorem entry_eq (LI : LoopInfo G) (LI' : LoopInfo G') : LI'.entry = h.iso LI.entry := by
  have hentry := LI'.isEntry
  rw [h.map_blocks, List.head?_map, LI.isEntry] at hentry
  exact (Option.some.inj hentry).symm

/-- The loop with the corresponding header is the corresponding loop. -/
theorem eq_map {L : Loop G} {L' : Loop G'} (hL : L ∈ LI.loops) (hL' : L' ∈ LI'.loops)
    (hheader : L'.header = h.iso L.header) : L' = L.map h := by
  have hblocks : L'.blocks = (L.map h).blocks := by
    ext b'
    obtain ⟨b, rfl⟩ := h.iso.surjective b'
    rw [LI'.body L' hL', hheader, entry_eq h LI LI', loopBody_iso, mem_map_blocks, LI.body L hL]
  cases L'
  rw [Loop.map, Loop.mk.injEq]
  exact ⟨hheader, hblocks⟩

theorem map_mem (LI' : LoopInfo G') {L : Loop G} (hL : L ∈ LI.loops) : L.map h ∈ LI'.loops := by
  obtain ⟨l, hl⟩ := LI.latched L hL
  have hlatch : Latch G'.Edge LI'.entry (h.iso L.header) (h.iso l) := by
    rw [entry_eq h LI LI']
    exact (latch_iso h.iso).mpr hl
  obtain ⟨L', hL', hheader⟩ := LI'.complete _ _ hlatch
  rwa [← eq_map h hL hL' hheader]

/-- Every loop is the one of a loop of the other function. -/
theorem exists_of_mem (LI : LoopInfo G) {L' : Loop G'} (hL' : L' ∈ LI'.loops) : ∃ L ∈ LI.loops, L' = L.map h := by
  obtain ⟨l', hlatch⟩ := LI'.latched L' hL'
  obtain ⟨b, hb⟩ := h.iso.surjective L'.header
  obtain ⟨l, rfl⟩ := h.iso.surjective l'
  rw [entry_eq h LI LI', ← hb] at hlatch
  obtain ⟨L, hL, hheader⟩ := LI.complete b l ((latch_iso h.iso).mp hlatch)
  refine ⟨L, hL, eq_map h hL hL' ?_⟩
  rw [hheader, hb]

theorem Innermost.map {B : G.Block} {L : Loop G} (hL : LI.Innermost B L) :
    LI'.Innermost (h.iso B) (L.map h) := by
  refine ⟨map_mem h LI' hL.1, (mem_map_blocks h).mpr hL.2.1, ?_⟩
  intro L' hL' hB
  obtain ⟨K, hK, rfl⟩ := exists_of_mem h LI hL'
  exact Finset.map_subset_map.mpr (hL.2.2 K hK ((mem_map_blocks h).mp hB))

/-- Where no loop is found, none is there. -/
theorem notMem_of_getLoopFor {B : G.Block} (hB : LI.getLoopFor B = none) : ∀ L ∈ LI.loops, B ∉ L.blocks := by
  intro L hL hmem
  have hnil := List.argmin_eq_none.mp hB
  have hfound : L ∈ LI.loops.filter (B ∈ ·.blocks) := by
    rw [List.mem_filter, decide_eq_true_iff]
    exact ⟨hL, hmem⟩
  rw [hnil] at hfound
  cases hfound

/-- **The loop found for a block** corresponds. -/
theorem getLoopFor_map (LI : LoopInfo G) (LI' : LoopInfo G') (B : G.Block) :
    LI'.getLoopFor (h.iso B) = (LI.getLoopFor B).map (Loop.map h) := by
  cases hfor : LI.getLoopFor B with
  | some L => exact getLoopFor_eq_some.mpr (Innermost.map h (getLoopFor_eq_some.mp hfor))
  | none =>
    apply getLoopFor_eq_none
    intro L' hL' hB
    obtain ⟨L, hL, rfl⟩ := exists_of_mem h LI hL'
    exact notMem_of_getLoopFor hfor L hL ((mem_map_blocks h).mp hB)

theorem isPredecessor_map {L : Loop G} {P : G.Block} : (L.map h).IsPredecessor (h.iso P) ↔ L.IsPredecessor P := by
  have honly : (∀ Q', Q' ∉ (L.map h).blocks → G'.Edge Q' (L.map h).header → Q' = h.iso P) ↔
      ∀ Q, Q ∉ L.blocks → G.Edge Q L.header → Q = P := by
    rw [h.iso.surjective.forall]
    refine forall_congr' fun Q => ?_
    rw [mem_map_blocks, h.iso.injective.eq_iff]
    exact imp_congr Iff.rfl (imp_congr h.iso.map_rel_iff Iff.rfl)
  exact and_congr (not_congr (mem_map_blocks h)) (and_congr h.iso.map_rel_iff honly)

theorem legalIn_iso (legal : Option Instruction → Bool) (b : G.Block) :
    legalIn legal G' (h.iso b) = legalIn legal G b := by
  rw [legalIn, legalIn, h.iso_val, h.terminator]

/-- **The preheader of a loop** corresponds. -/
theorem getLoopPreheader_map (legal : Option Instruction → Bool) (L : Loop G) :
    (L.map h).getLoopPreheader (legalIn legal G') =
      (L.getLoopPreheader (legalIn legal G)).map h.iso := by
  apply Option.ext
  intro P'
  obtain ⟨P, rfl⟩ := h.iso.surjective P'
  rw [getLoopPreheader_eq_some, isPredecessor_map, legalIn_iso, h.succ_iso, Option.map_eq_some_iff]
  have hsucc : (G.succ P).map h.iso = [(L.map h).header] ↔ G.succ P = [L.header] := by
    show (G.succ P).map h.iso = [L.header].map h.iso ↔ _
    exact (List.map_injective_iff.mpr h.iso.injective).eq_iff
  rw [hsucc, ← getLoopPreheader_eq_some]
  constructor
  · intro hP
    exact ⟨P, hP, rfl⟩
  · rintro ⟨Q, hQ, heq⟩
    rwa [← h.iso.injective heq]

end Loops

/-! ### The report -/

section Report

variable (h : SameGraph G.fn G'.fn)

/-- The corresponding line. -/
def Line.map : Line G → Line G'
  | .func => .func
  | .noLoop => .noLoop
  | .block B => .block (h.iso B)
  | .pred P => .pred (h.iso P)
  | .preheader P => .preheader (h.iso P)

theorem Line.text_map (l : Line G) : (l.map h).text = l.text := by
  cases l with
  | func => simp only [Line.map, Line.text, h.name]
  | noLoop => rfl
  | block B => simp only [Line.map, Line.text, h.name_iso]
  | pred P => simp only [Line.map, Line.text, h.name_iso]
  | preheader P => simp only [Line.map, Line.text, h.name_iso]

variable (LI : LoopInfo G) (LI' : LoopInfo G') (legal : Option Instruction → Bool)

theorem loopLines_map (B : G.Block) :
    loopLines LI' (legalIn legal G') (h.iso B) = (loopLines LI (legalIn legal G) B).map (Line.map h) := by
  rw [loopLines, loopLines, getLoopFor_map h LI LI']
  cases LI.getLoopFor B with
  | none => rfl
  | some L =>
    simp only [Option.map_some, getLoopPreheader_map]
    cases L.getLoopPreheader (legalIn legal G) with
    | none => rfl
    | some P => rfl

include h in
theorem loops_isEmpty : LI'.loops.isEmpty = LI.loops.isEmpty := by
  rw [Bool.eq_iff_iff, List.isEmpty_iff, List.isEmpty_iff]
  constructor
  · intro hnil
    refine List.eq_nil_iff_forall_not_mem.mpr fun L hL => ?_
    exact List.eq_nil_iff_forall_not_mem.mp hnil _ (map_mem h LI' hL)
  · intro hnil
    refine List.eq_nil_iff_forall_not_mem.mpr fun L' hL' => ?_
    obtain ⟨L, hL, -⟩ := exists_of_mem h LI hL'
    exact List.eq_nil_iff_forall_not_mem.mp hnil _ hL

theorem runOnFunction_map :
    runOnFunction LI' (legalIn legal G') = (runOnFunction LI (legalIn legal G)).map (Line.map h) := by
  rw [runOnFunction, runOnFunction, loops_isEmpty h LI LI', List.map_cons]
  refine congrArg (List.cons _) ?_
  split
  · rfl
  · rw [h.map_blocks, List.flatMap_map, List.map_flatMap]
    refine List.flatMap_congr fun B _ => ?_
    rw [loopLines_map h LI LI', List.map_cons]
    rfl

include h in
/-- **The report on two functions with the same graph is the same**, whatever order the analysis hands the
loops over in. -/
theorem text_congr : text (runOnFunction LI' (legalIn legal G')) = text (runOnFunction LI (legalIn legal G)) := by
  have htext : Line.text ∘ Line.map h = Line.text := by
    funext l
    exact Line.text_map h l
  rw [text, text, runOnFunction_map h LI LI', List.map_map, htext]

end Report

/-! ### The report on a module -/

/-- `count-li` prints the paragraph `p` for the function `F`. -/
def ReportsOn (legal : Option Instruction → Bool) (F : Function) (p : String) : Prop :=
  ∃ (G : Cfg) (LI : LoopInfo G), G.fn = F ∧ p = text (runOnFunction LI (legalIn legal G))

/-- A function gets one paragraph, whatever order the analysis hands its loops over in. -/
theorem reportsOn_unique {legal : Option Instruction → Bool} {F : Function} {p q : String}
    (hp : ReportsOn legal F p) (hq : ReportsOn legal F q) : p = q := by
  obtain ⟨G, LI, rfl, rfl⟩ := hp
  obtain ⟨G', LI', hfn, rfl⟩ := hq
  exact (text_congr (hfn ▸ SameGraph.refl G.fn) LI LI' legal).symm

/-- A function of a well-formed module that has a body gets a paragraph. -/
theorem reportsOn_exists (legal : Option Instruction → Bool) {M : Module} {F : Function} (hF : F.WellFormed M)
    (hdef : F.isDeclaration = false) : ∃ p, ReportsOn legal F p := by
  have hne : (Cfg.ofFunction hF).blocks ≠ [] := by
    intro hnil
    have hlength := congrArg List.length hnil
    rw [Cfg.blocks, List.length_attach, List.length_map, List.length_nil] at hlength
    rw [Function.isDeclaration, List.isEmpty_eq_false_iff] at hdef
    exact hdef (List.length_eq_zero_iff.mp hlength)
  obtain ⟨LI⟩ := exists_loopInfo (Cfg.ofFunction hF) (List.head?_eq_some_head hne)
  exact ⟨_, Cfg.ofFunction hF, LI, rfl, rfl⟩

/-- `count-li` prints the paragraphs `ps` for the module `M`. -/
def Reports (legal : Option Instruction → Bool) (M : Module) (ps : List String) : Prop :=
  List.Forall₂ (ReportsOn legal) (definitions M) ps

/-- **`count-li` prints one text** for a well-formed module. -/
theorem reports_exists_unique (legal : Option Instruction → Bool) {M : Module} (hM : M.WellFormed) :
    ∃ ps, ∀ qs, Reports legal M qs ↔ qs = ps := by
  have hexists : ∀ Fs : List Function, (∀ F ∈ Fs, ∃ p, ReportsOn legal F p) →
      ∃ ps, List.Forall₂ (ReportsOn legal) Fs ps := by
    intro Fs
    induction Fs with
    | nil => exact fun _ => ⟨[], .nil⟩
    | cons F Fs ih =>
      intro h
      obtain ⟨hF, hFs⟩ := List.forall_mem_cons.mp h
      obtain ⟨p, hp⟩ := hF
      obtain ⟨ps, hps⟩ := ih hFs
      exact ⟨p :: ps, .cons hp hps⟩
  obtain ⟨ps, hps⟩ := hexists (definitions M) fun F hF =>
    have hF := List.mem_filter.mp hF
    reportsOn_exists legal (hM.functions F hF.1) (by simpa using hF.2)
  refine ⟨ps, fun qs => ⟨fun hqs => ?_, fun hqs => hqs ▸ hps⟩⟩
  have hunique : Relator.RightUnique (ReportsOn legal) := fun _ _ _ hp hq => reportsOn_unique hp hq
  exact hunique.forall₂ hqs hps

/-- The paragraph of a function is kept. -/
theorem reportsOn_congr {legal : Option Instruction → Bool} {F F' : Function} (h : SameGraph F F') {p : String} :
    ReportsOn legal F' p ↔ ReportsOn legal F p := by
  have hkeep : ∀ {F F' : Function}, SameGraph F F' → ∀ {p}, ReportsOn legal F p → ReportsOn legal F' p := by
    rintro F F' h p ⟨G, LI, rfl, rfl⟩
    obtain ⟨G', rfl⟩ := h.cfg rfl
    have hentry : G'.blocks.head? = some (h.iso LI.entry) := by
      rw [h.map_blocks, List.head?_map, LI.isEntry]
      rfl
    obtain ⟨LI'⟩ := exists_loopInfo G' hentry
    exact ⟨G', LI', rfl, (text_congr h LI LI' legal).symm⟩
  exact ⟨hkeep h.symm, hkeep h⟩

end SnippetsLlvm.CountLI
