import SnippetsLlvm.CountBB.OneCounter
import SnippetsLlvm.CountLI.SameGraph
import SnippetsLlvm.Pipeline.PosixCount

/-!
# What the analyses say after the transformations

`cfg-path` and `count-li` may run before or after `posix-main` and `count-bb`.  The counting code goes before
terminators and the registration before the first instruction, so that no graph changes; the handler is one
more function, with one block.  `posix-main` moves the blocks of `main` as they are.

* `sameGraph_counted` — a function and its counted version have the same graph;
* `Ready.definitions_instrumented` — the functions of the result that have a body;
* `cfgPath_counted`, `countLI_counted` — **the paragraphs of both analyses are kept, and one for the handler is
  added**;
* `analyses_pipeline` — **after `posix-main` and `count-bb`, the paragraph of `main` is last and the handler's
  follows it**.
-/

namespace SnippetsLlvm.Pipeline

open SnippetsLlvm.Ir SnippetsLlvm.Library SnippetsLlvm.CFGPath SnippetsLlvm.CountLI SnippetsLlvm.CountBB
  SnippetsLlvm.PosixMain

/-! ### The graphs -/

/-- Instructions put before the last one keep the terminator, if they are none themselves. -/
theorem getTerminator_insertBeforeLast {B : BasicBlock} {new : List Instruction}
    (hnew : ∀ I ∈ new, I.isTerminator = false) :
    (B.insertBeforeLast new).getTerminator = B.getTerminator := by
  rw [BasicBlock.getTerminator, BasicBlock.getTerminator, BasicBlock.insertBeforeLast]
  cases hlast : B.insts.getLast? with
  | some t => simp
  | none =>
    rw [List.getLast?_eq_none_iff.mp hlast]
    simp only [List.dropLast_nil, List.nil_append, Option.toList_none, List.append_nil, Option.filter_none]
    refine Option.filter_eq_none_iff.mpr fun I hI => ?_
    rw [hnew I (List.mem_of_getLast? hI)]
    simp

/-- So does an instruction put before the first one. -/
theorem getTerminator_pushFront {B : BasicBlock} {I : Instruction} (hI : I.isTerminator = false) :
    (B.pushFront I).getTerminator = B.getTerminator := by
  rw [BasicBlock.getTerminator, BasicBlock.getTerminator, BasicBlock.pushFront]
  cases hinsts : B.insts with
  | nil => simp [hI]
  | cons J rest => rw [List.getLast?_cons_cons]

theorem map_node_countBlocks (c : GlobalVariable) (n : ℕ) (Bs : List BasicBlock) :
    (countBlocks c n Bs).map node = Bs.map node := by
  induction Bs generalizing n with
  | nil => rfl
  | cons B Bs ih =>
    have hterm : (B.insertBeforeLast (countInsts n c)).getTerminator = B.getTerminator :=
      getTerminator_insertBeforeLast fun I hI => (countInsts_plain hI).1
    rw [countBlocks, List.map_cons, List.map_cons, ih]
    refine congrArg (· :: Bs.map node) ?_
    rw [node, node, hterm]
    rfl

/-- **Counting keeps the graph.** -/
theorem sameGraph_counted (c : GlobalVariable) (F : Function) : SameGraph F (countFunction c F) :=
  ⟨rfl, map_node_countBlocks c F.nextValue F.blocks⟩

/-- **The registration keeps the graph.** -/
theorem sameGraph_registered (a h : ℕ) (F : Function) : SameGraph F (registerAtFront a h F) := by
  refine ⟨registerAtFront_name a h F, ?_⟩
  rw [registerAtFront]
  split
  · rfl
  · rename_i B Bs hblocks
    rw [hblocks, List.map_cons, List.map_cons]
    refine congrArg (· :: Bs.map node) ?_
    rw [node, node, getTerminator_pushFront rfl]
    rfl

/-! ### The functions of the counted module -/

/-- A declaration with the type `ty` and nothing else. -/
structure Bare (ty : FunctionType) (F : Function) : Prop where
  blocks : F.blocks = []
  type : F.type = ty
  personality : F.personality = none
  intrinsic : F.intrinsic = none

theorem Bare.insts {ty : FunctionType} {F : Function} (h : Bare ty F) : F.insts = [] := by
  rw [Function.insts, h.blocks, List.flatMap_nil]

theorem Bare.counted {ty : FunctionType} {F : Function} (c : GlobalVariable) (h : Bare ty F) :
    Bare ty (countUnlessHandler c F) := by
  rw [countUnlessHandler]
  split
  · exact h
  · rw [countFunction, h.blocks]
    exact ⟨rfl, h.type, h.personality, h.intrinsic⟩

theorem withSymbol_functions (M : Module) (name : String) (ty : FunctionType) (attrs : AttributeList) :
    ∃ ds, (withSymbol M name ty attrs).functions = M.functions ++ ds ∧
      ∀ F ∈ ds, Bare ty F ∧ M.nextGlobal ≤ F.id := by
  rw [withSymbol]
  split
  · exact ⟨[], (List.append_nil _).symm, fun F hF => by cases hF⟩
  · refine ⟨[(M.addFunction ty .external name attrs).2], rfl, ?_⟩
    intro F hF
    rw [List.mem_singleton.mp hF]
    exact ⟨⟨rfl, rfl, rfl, rfl⟩, le_refl _⟩

/-- What the pass makes of a function that was there before. -/
def countedFn (M : Module) (main F : Function) : Function :=
  countFunction (counter M) (if F.id = main.id then registerAtFront (atexitId M) (handlerId M) F else F)

/-- It keeps the graph. -/
theorem sameGraph_countedFn (M : Module) (main F : Function) : SameGraph F (countedFn M main F) := by
  rw [countedFn]
  split
  · exact (sameGraph_registered _ _ F).trans (sameGraph_counted _ _)
  · exact sameGraph_counted _ _

section Counted

variable {M : Module} {main : Function} (hM : Ready M main)
include hM

/-- No function that was there before is taken for the handler. -/
theorem countUnlessHandler_old {F : Function} (hF : F ∈ M.functions) :
    countUnlessHandler (counter M) (if F.id = main.id then registerAtFront (atexitId M) (handlerId M) F else F) =
      countedFn M main F := by
  have hname : F.name ≠ atexitCallStr := by
    intro h
    exact hM.noHandler (h ▸ Module.name_mem_names hF)
  rw [countUnlessHandler, countedFn, if_neg]
  split
  · rwa [registerAtFront_name]
  · exact hname

/-- The functions after the last declaration: the old ones, with the registration, the handler's declaration, and
other declarations. -/
theorem functions_withPrintf : ∃ ds,
    (withPrintf M main).functions = (M.functions.map fun F =>
      if F.id = main.id then registerAtFront (atexitId M) (handlerId M) F else F) ++ handlerDecl M :: ds ∧
      ∀ F ∈ ds, F.id ≠ handlerId M ∧ (Bare atexitTy F ∨ Bare printfTy F) := by
  obtain ⟨ds₁, hds₁, hnew₁⟩ := withSymbol_functions (withHandler M) "atexit" atexitTy ⟨["nounwind"], []⟩
  obtain ⟨ds₂, hds₂, hnew₂⟩ := withSymbol_functions (withRegister M main) "printf" printfTy ⟨[], []⟩
  have hhandler : (withHandler M).functions = M.functions ++ [handlerDecl M] := by
    rw [hM.withHandler_eq, ← hM.handlerDecl_eq]
    rfl
  have hatexit : (withAtexit M).functions = M.functions ++ handlerDecl M :: ds₁ := by
    rw [withAtexit, hds₁, hhandler, List.append_assoc, List.singleton_append]
  have hlt := hM.main_lt
  have hid := hM.handlerId_eq
  have hnext := hM.withHandler_nextGlobal
  have hnext' : (withHandler M).nextGlobal ≤ (withRegister M main).nextGlobal :=
    le_withSymbol_nextGlobal _ _ _ _
  have hkeep : ds₁.map (fun F => if F.id = main.id then registerAtFront (atexitId M) (handlerId M) F else F) =
      ds₁ := by
    refine (List.map_congr_left fun F hF => ?_).trans (List.map_id ds₁)
    have h₁ := hnew₁ F hF
    exact if_neg (by omega)
  refine ⟨ds₁ ++ ds₂, ?_, ?_⟩
  · rw [withPrintf, hds₂, withRegister_functions, hatexit, List.map_append, List.map_cons,
      if_neg hM.handlerDecl_id_ne, hkeep, List.append_assoc, List.cons_append]
  · intro F hF
    rcases List.mem_append.mp hF with hF | hF
    · have h₁ := hnew₁ F hF
      exact ⟨by omega, .inl h₁.1⟩
    · have h₂ := hnew₂ F hF
      exact ⟨by omega, .inr h₂.1⟩

/-- **The functions of the result**: those that were there before, counted, the handler, and declarations. -/
theorem functions_instrumented : ∃ ds,
    (instrumented M main (counter M)).functions =
      M.functions.map (countedFn M main) ++ handlerFn M main :: ds ∧
      ∀ F ∈ ds, Bare atexitTy F ∨ Bare printfTy F := by
  obtain ⟨ds, hprintf, hds⟩ := functions_withPrintf hM
  rw [instrumented_functions, withReport_functions, hprintf, List.map_append, List.map_append, List.map_cons,
    List.map_cons, if_pos hM.handlerDecl_id, List.map_map, List.map_map]
  refine ⟨_, congrArg₂ (· ++ ·) ?_ (congrArg (· :: _) ?_), ?_⟩
  · refine List.map_congr_left fun F hF => ?_
    have hne : F.id ≠ handlerId M := by
      have hlt := hM.wf.function_lt hF
      have hid := hM.handlerId_eq
      omega
    rw [Function.comp_apply, Function.comp_apply, if_neg]
    · exact countUnlessHandler_old hM hF
    · split
      · rwa [registerAtFront_id]
      · exact hne
  · rw [countUnlessHandler]
    exact if_pos rfl
  · intro F' hF'
    rw [List.map_map] at hF'
    obtain ⟨F, hF, rfl⟩ := List.mem_map.mp hF'
    obtain ⟨hne, hbare⟩ := hds F hF
    rw [Function.comp_apply, if_neg hne]
    exact hbare.imp (Bare.counted _) (Bare.counted _)

/-- **The functions of the result that have a body**: those that had one before, with the same graphs, and the
handler. -/
theorem definitions_instrumented : ∃ Fs, definitions (instrumented M main (counter M)) = Fs ++ [handlerFn M main] ∧
    List.Forall₂ SameGraph (definitions M) Fs := by
  obtain ⟨ds, hfunctions, hds⟩ := functions_instrumented hM
  refine ⟨(M.functions.map (countedFn M main)).filter (!·.isDeclaration), ?_, ?_⟩
  · have hnil : ds.filter (!·.isDeclaration) = [] := by
      refine List.filter_eq_nil_iff.mpr fun F hF => ?_
      have hblocks : F.blocks = [] := (hds F hF).elim Bare.blocks Bare.blocks
      rw [Function.isDeclaration, hblocks]
      simp
    rw [definitions, hfunctions, List.filter_append, List.filter_cons_of_pos rfl, hnil]
  · have hsame : List.Forall₂ SameGraph M.functions (M.functions.map (countedFn M main)) := by
      rw [List.forall₂_map_right_iff]
      exact List.forall₂_same.mpr fun F _ => sameGraph_countedFn M main F
    refine List.rel_filter (fun F F' hF => ?_) hsame
    show (!F.isDeclaration) = true ↔ (!F'.isDeclaration) = true
    rw [hF.isDeclaration]

end Counted

/-! ### Functions with the same graphs -/

theorem mapM_paragraph {Fs Fs' : List Function} (h : List.Forall₂ SameGraph Fs Fs') :
    Fs'.mapM paragraph = Fs.mapM paragraph := by
  induction h with
  | nil => rfl
  | cons hF _ ih => rw [List.mapM_cons, List.mapM_cons, paragraph_congr hF, ih]

theorem forall₂_reportsOn {legal : Option Instruction → Bool} {Fs Fs' : List Function}
    (h : List.Forall₂ SameGraph Fs Fs') {ps : List String} :
    List.Forall₂ (ReportsOn legal) Fs' ps ↔ List.Forall₂ (ReportsOn legal) Fs ps := by
  induction h generalizing ps with
  | nil => exact Iff.rfl
  | cons hF _ ih =>
    rw [List.forall₂_cons_left_iff, List.forall₂_cons_left_iff]
    refine exists_congr fun p => exists_congr fun ps' => ?_
    rw [reportsOn_congr hF, ih]

/-- The report on one more function. -/
theorem forall₂_append_singleton {α β : Type} {R : α → β → Prop} {as : List α} {a : α} {bs : List β} :
    List.Forall₂ R (as ++ [a]) bs ↔ ∃ bs' b, List.Forall₂ R as bs' ∧ R a b ∧ bs = bs' ++ [b] := by
  induction as generalizing bs with
  | nil =>
    rw [List.nil_append, List.forall₂_cons_left_iff]
    simp
  | cons x as ih =>
    rw [List.cons_append, List.forall₂_cons_left_iff]
    constructor
    · rintro ⟨y, bs₁, hxy, hbs₁, rfl⟩
      obtain ⟨bs', b, hbs', hab, rfl⟩ := ih.mp hbs₁
      exact ⟨y :: bs', b, .cons hxy hbs', hab, rfl⟩
    · rintro ⟨bs', b, hbs', hab, rfl⟩
      obtain ⟨y, bs₁, hxy, hbs₁, rfl⟩ := List.forall₂_cons_left_iff.mp hbs'
      exact ⟨y, bs₁ ++ [b], hxy, ih.mpr ⟨bs₁, b, hbs₁, hab, rfl⟩, rfl⟩

/-! ### A function with one block -/

section Single

variable {G : Cfg} {B : BasicBlock} (hB : G.fn.blocks = [B])
include hB

theorem block?_single : G.fn.block? B.id = some B := by
  rw [Function.block?, hB]
  exact List.find?_cons_of_pos (decide_eq_true rfl)

theorem blocks_single : ∃ b : G.Block, G.blocks = [b] ∧ b.1 = B.id := by
  have hids : G.blocks.map Subtype.val = [B.id] := by
    rw [Cfg.blocks, List.attach_map_subtype_val, hB]
    rfl
  obtain ⟨b, hb, hid⟩ := List.map_eq_singleton_iff.mp hids
  exact ⟨b, hb, hid⟩

theorem traversePath_single : traversePath G = "Func: " ++ G.fn.name ++ "\n" ++ (B.name ++ ": " ++ "" ++ "\n") := by
  obtain ⟨b, hblocks, hid⟩ := blocks_single hB
  have hname : G.name b = B.name := by
    rw [Cfg.name, hid, block?_single hB]
    rfl
  have hreach : reachable G b = [] := by
    refine List.eq_nil_iff_forall_not_mem.mpr fun C hC => ?_
    have hmem := G.mem_blocks C
    rw [hblocks, List.mem_singleton] at hmem
    exact (mem_reachable.mp hC).1 hmem.symm
  rw [traversePath, traverseLines_eq, hblocks, List.map_singleton, hreach, line, hname]
  simp only [List.map_nil, String.join_nil, String.join_cons, String.append_empty]

/-- A block without successors is in no loop. -/
theorem loops_single (hsucc : B.successors = []) (LI : LoopInfo G) : LI.loops = [] := by
  refine List.eq_nil_iff_forall_not_mem.mpr fun L hL => ?_
  obtain ⟨l, hl⟩ := LI.latched L hL
  obtain ⟨b, hblocks, hid⟩ := blocks_single hB
  have hmem := G.mem_blocks l
  rw [hblocks, List.mem_singleton] at hmem
  have hedge := G.edge_iff.mp hl.edge
  rw [hmem, hid, Function.successors, block?_single hB] at hedge
  change L.header.1 ∈ B.successors at hedge
  rw [hsucc] at hedge
  cases hedge

end Single

/-! ### The paragraphs of the counted module -/

section Handler

variable (M : Module) (main : Function)

theorem handlerFn_blocks : (handlerFn M main).blocks =
    [reportBlock 0 "entry" 0 (counter M) (printfId M main) (CountBB.format M main)] := rfl

/-- The graph of the handler. -/
def handlerCfg : Cfg := ⟨handlerFn M main, List.nodup_singleton _, by
  intro B hB b hb
  rw [List.mem_singleton.mp hB] at hb
  cases hb⟩

theorem paragraph_handlerFn : paragraph (handlerFn M main) = some "Func: setupAtExit\nentry: \n" := by
  have hG : Cfg.of? (handlerFn M main) = some (handlerCfg M main) := Cfg.of?_eq_some.mpr rfl
  rw [paragraph, hG, Option.map_some, traversePath_single (handlerFn_blocks M main)]
  rfl

theorem reportsOn_handlerFn {legal : Option Instruction → Bool} {p : String} :
    ReportsOn legal (handlerFn M main) p ↔ p = "\nFunc: setupAtExit\nno loop inside\n" := by
  have htext : ∀ G : Cfg, G.fn = handlerFn M main → ∀ LI : LoopInfo G,
      text (CountLI.runOnFunction LI (legalIn legal G)) = "\nFunc: setupAtExit\nno loop inside\n" := by
    intro G hG LI
    have hloops := loops_single (G := G) (by rw [hG]; exact handlerFn_blocks M main) rfl LI
    rw [text, CountLI.runOnFunction, hloops]
    simp only [List.isEmpty_nil, if_true, List.map_cons, List.map_nil, Line.text, hG]
    rfl
  constructor
  · rintro ⟨G, LI, hG, rfl⟩
    exact htext G hG LI
  · rintro rfl
    obtain ⟨b, hblocks, -⟩ := blocks_single (G := handlerCfg M main) (handlerFn_blocks M main)
    have hentry : (handlerCfg M main).blocks.head? = some b := by
      rw [hblocks]
      rfl
    obtain ⟨LI⟩ := exists_loopInfo (handlerCfg M main) hentry
    exact ⟨handlerCfg M main, LI, rfl, (htext _ rfl LI).symm⟩

end Handler

section Counted

variable {M : Module} {main : Function} (hM : Ready M main)
include hM

theorem paragraphs_instrumented {ps : List String} (hps : paragraphs M = some ps) :
    paragraphs (instrumented M main (counter M)) = some (ps ++ ["Func: setupAtExit\nentry: \n"]) := by
  obtain ⟨Fs, hdefs, hsame⟩ := definitions_instrumented hM
  rw [paragraphs] at hps
  rw [paragraphs, hdefs, List.mapM_append, mapM_paragraph hsame, hps, List.mapM_cons, paragraph_handlerFn]
  rfl

theorem reports_instrumented {legal : Option Instruction → Bool} {ps : List String}
    (hps : ∀ qs, Reports legal M qs ↔ qs = ps) (qs : List String) :
    Reports legal (instrumented M main (counter M)) qs ↔
      qs = ps ++ ["\nFunc: setupAtExit\nno loop inside\n"] := by
  obtain ⟨Fs, hdefs, hsame⟩ := definitions_instrumented hM
  rw [Reports, hdefs, forall₂_append_singleton]
  constructor
  · rintro ⟨qs', q, hqs, hq, rfl⟩
    rw [(reportsOn_handlerFn M main).mp hq, (hps qs').mp ((forall₂_reportsOn hsame).mp hqs)]
  · rintro rfl
    exact ⟨ps, _, (forall₂_reportsOn hsame).mpr ((hps ps).mpr rfl), (reportsOn_handlerFn M main).mpr rfl, rfl⟩

end Counted

/-- **`cfg-path` prints the same before and after `count-bb`**, with one more paragraph for the handler: the counting
code and the registration open and close no path. -/
theorem cfgPath_counted {M : Module} {main : Function} (hM : Ready M main) :
    ∃ M' ps, runOnModule M = .ok M' ∧ paragraphs M = some ps ∧ ps.length = (definitions M).length ∧
      paragraphs M' = some (ps ++ ["Func: setupAtExit\nentry: \n"]) := by
  obtain ⟨ps, hps, hlength⟩ := paragraphs_exists hM.wf
  exact ⟨_, ps, hM.runOnModule, hps, hlength, paragraphs_instrumented hM hps⟩

theorem cfgPath_counted_poll : ∃ M' ps, runOnModule pollModule = .ok M' ∧
    paragraphs pollModule = some ps ∧ ps.length = (definitions pollModule).length ∧
      paragraphs M' = some (ps ++ ["Func: setupAtExit\nentry: \n"]) :=
  cfgPath_counted ready_pollModule

/-- **`count-li` prints the same before and after `count-bb`**, with one more paragraph for the handler. -/
theorem countLI_counted {M : Module} {main : Function} (hM : Ready M main) :
    ∃ M', runOnModule M = .ok M' ∧ ∀ legal, ∃ ps, (∀ qs, Reports legal M qs ↔ qs = ps) ∧
      ∀ qs, Reports legal M' qs ↔ qs = ps ++ ["\nFunc: setupAtExit\nno loop inside\n"] := by
  refine ⟨_, hM.runOnModule, fun legal => ?_⟩
  obtain ⟨ps, hps⟩ := reports_exists_unique legal hM.wf
  exact ⟨ps, hps, reports_instrumented hM hps⟩

theorem countLI_counted_poll : ∃ M', runOnModule pollModule = .ok M' ∧
    ∀ legal, ∃ ps, (∀ qs, Reports legal pollModule qs ↔ qs = ps) ∧
      ∀ qs, Reports legal M' qs ↔ qs = ps ++ ["\nFunc: setupAtExit\nno loop inside\n"] :=
  countLI_counted ready_pollModule

/-! ### Both transformations -/

/-- The module with `main` as its last function. -/
def movedLast (M : Module) (main : Function) : Module :=
  { M with functions := M.functions.filter (·.id ≠ main.id) ++ [main] }

/-- **The moved `main` has the graph of the old one.** -/
theorem sameGraph_replaced {M : Module} {main : Function} (hmain : M.getFunction "main" = some main) :
    List.Forall₂ SameGraph (definitions (movedLast M main)) (definitions (replaced M main)) := by
  have hsame : List.Forall₂ SameGraph (movedLast M main).functions (replaced M main).functions := by
    refine List.rel_append (List.forall₂_same.mpr fun F _ => SameGraph.refl F) (.cons ⟨?_, rfl⟩ .nil)
    exact (main_name hmain).symm
  refine List.rel_filter (fun F F' hF => ?_) hsame
  show (!F.isDeclaration) = true ↔ (!F'.isDeclaration) = true
  rw [hF.isDeclaration]

/-- **What the analyses print after `posix-main` and after both transformations**: the old paragraphs, with the one of
`main` last and then the one of the handler. -/
theorem analyses_pipeline {M : Module} {main : Function} (hM : Posixable M main) (identifier : String) :
    ∃ M' M'', posixizeMain M identifier = .ok ⟨[], true, M'⟩ ∧ runOnModule M' = .ok M'' ∧
      (∃ ps, paragraphs (movedLast M main) = some ps ∧ paragraphs M' = some ps ∧
        paragraphs M'' = some (ps ++ ["Func: setupAtExit\nentry: \n"])) ∧
      ∀ legal, ∃ ps, (∀ qs, Reports legal (movedLast M main) qs ↔ qs = ps) ∧
        (∀ qs, Reports legal M' qs ↔ qs = ps) ∧
        ∀ qs, Reports legal M'' qs ↔ qs = ps ++ ["\nFunc: setupAtExit\nno loop inside\n"] := by
  have hready := hM.ready_replaced
  have hsame := sameGraph_replaced hM.mainFn
  refine ⟨_, _, hM.moves.posixizeMain identifier, hready.runOnModule, ?_,
    fun legal => ?_⟩
  · obtain ⟨ps, hps, -⟩ := paragraphs_exists hready.wf
    refine ⟨ps, ?_, hps, paragraphs_instrumented hready hps⟩
    rw [paragraphs, mapM_paragraph hsame] at hps
    exact hps
  · obtain ⟨ps, hps⟩ := reports_exists_unique legal hready.wf
    refine ⟨ps, fun qs => ?_, hps, reports_instrumented hready hps⟩
    rw [← hps qs]
    exact (forall₂_reportsOn hsame).symm

theorem analyses_pipeline_poll : ∃ M' M'', posixizeMain pollModule "poll" = .ok ⟨[], true, M'⟩ ∧
    runOnModule M' = .ok M'' ∧
      (∃ ps, paragraphs (movedLast pollModule pollMain) = some ps ∧ paragraphs M' = some ps ∧
        paragraphs M'' = some (ps ++ ["Func: setupAtExit\nentry: \n"])) ∧
      ∀ legal, ∃ ps, (∀ qs, Reports legal (movedLast pollModule pollMain) qs ↔ qs = ps) ∧
        (∀ qs, Reports legal M' qs ↔ qs = ps) ∧
        ∀ qs, Reports legal M'' qs ↔ qs = ps ++ ["\nFunc: setupAtExit\nno loop inside\n"] :=
  analyses_pipeline pipeable_pollModule.toPosixable "poll"

end SnippetsLlvm.Pipeline
