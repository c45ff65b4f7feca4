import SnippetsLlvm.CFGPath.DumpCFGPath
import SnippetsLlvm.Library.GraphIso

/-!
# Functions with the same control-flow graph

What `cfg-path` reads of a function is its name and, of each block, the name and the terminator.  A rewriting
that keeps these keeps the graph up to an isomorphism that matches block with block, and with it the text.

* `SameGraph` — the same name and the same blocks up to instructions that are no terminators;
* `SameGraph.iso` — the isomorphism, with `map_blocks`, `succ_iso` and `name_iso`;
* `traversePath_congr` — **the text is the same**;
* `paragraphs` — the text of a module, one paragraph for each function that has a body.
-/

namespace SnippetsLlvm.CFGPath

open SnippetsLlvm.Ir SnippetsLlvm.Library

/-! ### What is read of a function -/

/-- What is read of a block: its identity, its name and its terminator. -/
def node (B : BasicBlock) : ℕ × String × Option Instruction := (B.id, B.name, B.getTerminator)

/-- The functions have the same name and, block by block, the same terminators. -/
structure SameGraph (F F' : Function) : Prop where
  name : F'.name = F.name
  nodes : F'.blocks.map node = F.blocks.map node

namespace SameGraph

theorem refl (F : Function) : SameGraph F F := ⟨rfl, rfl⟩

theorem trans {F F' F'' : Function} (h : SameGraph F F') (h' : SameGraph F' F'') : SameGraph F F'' :=
  ⟨h'.name.trans h.name, h'.nodes.trans h.nodes⟩

variable {F F' : Function} (h : SameGraph F F')
include h

theorem ids : F'.blocks.map BasicBlock.id = F.blocks.map BasicBlock.id := by
  have hids := congrArg (List.map Prod.fst) h.nodes
  rwa [List.map_map, List.map_map] at hids

theorem isDeclaration : F'.isDeclaration = F.isDeclaration := by
  have hlength := congrArg List.isEmpty h.nodes
  rwa [List.isEmpty_map, List.isEmpty_map] at hlength

omit h in
/-- The block with a given identity, as far as it is read. -/
theorem map_node_block? (F : Function) (b : ℕ) :
    (F.block? b).map node = (F.blocks.map node).find? (·.1 = b) := by
  rw [List.find?_map]
  rfl

theorem block? (b : ℕ) : (F'.block? b).map node = (F.block? b).map node := by
  rw [map_node_block?, map_node_block?, h.nodes]

theorem blockName (b : ℕ) : (F'.block? b).map BasicBlock.name = (F.block? b).map BasicBlock.name := by
  have hname := congrArg (Option.map fun n => n.2.1) (h.block? b)
  rwa [Option.map_map, Option.map_map] at hname

theorem terminator (b : ℕ) :
    (F'.block? b).bind BasicBlock.getTerminator = (F.block? b).bind BasicBlock.getTerminator := by
  have hterm := congrArg (fun n => n.bind fun n => n.2.2) (h.block? b)
  rwa [Option.bind_map, Option.bind_map] at hterm

theorem successors (b : ℕ) : F'.successors b = F.successors b := by
  have hsucc : ∀ F : Function, F.successors b =
      (((F.block? b).bind BasicBlock.getTerminator).map Instruction.successors).getD [] := by
    intro F
    rw [Function.successors]
    cases F.block? b with
    | none => rfl
    | some B =>
      show B.successors = _
      rw [BasicBlock.successors, Option.bind_some]
      cases B.getTerminator with
      | none => rfl
      | some t => rfl
  rw [hsucc, hsucc, h.terminator]

end SameGraph

/-! ### The isomorphism -/

variable {G G' H : Cfg}

namespace SameGraph

variable (h : SameGraph G.fn G'.fn)

/-- Each block corresponds to the one with the same identity. -/
def iso : G.Edge ≃r G'.Edge where
  toFun b := ⟨b.1, h.ids.symm ▸ b.2⟩
  invFun b := ⟨b.1, h.ids ▸ b.2⟩
  left_inv _ := rfl
  right_inv _ := rfl
  map_rel_iff' := by
    intro a b
    rw [G.edge_iff, G'.edge_iff, h.successors]
    exact Iff.rfl

theorem iso_val (b : G.Block) : (h.iso b).1 = b.1 := rfl

theorem map_blocks : G'.blocks = G.blocks.map h.iso := by
  apply List.map_injective_iff.mpr Subtype.val_injective
  calc G'.blocks.map Subtype.val = G'.fn.blocks.map BasicBlock.id := List.attach_map_subtype_val _
    _ = G.fn.blocks.map BasicBlock.id := h.ids
    _ = G.blocks.map Subtype.val := (List.attach_map_subtype_val _).symm
    _ = (G.blocks.map h.iso).map Subtype.val := by
      rw [List.map_map]
      rfl

theorem name_iso (b : G.Block) : G'.name (h.iso b) = G.name b := by
  rw [Cfg.name, Cfg.name, h.iso_val, h.blockName]

theorem succ_iso (b : G.Block) : G'.succ (h.iso b) = (G.succ b).map h.iso := by
  have hval : ∀ {G : Cfg} (b : G.Block), (G.succ b).map Subtype.val = G.fn.successors b.1 := by
    intro G b
    rw [Cfg.succ, List.map_pmap, List.pmap_eq_map, List.map_id']
  apply List.map_injective_iff.mpr Subtype.val_injective
  calc (G'.succ (h.iso b)).map Subtype.val = G'.fn.successors b.1 := hval _
    _ = G.fn.successors b.1 := h.successors b.1
    _ = (G.succ b).map Subtype.val := (hval b).symm
    _ = ((G.succ b).map h.iso).map Subtype.val := by
      rw [List.map_map]
      rfl

end SameGraph

/-! ### The text -/

section Text

/-- The blocks listed, carried along. -/
theorem map_reachable {e : G.Block ≃ H.Block} (hblocks : G.blocks.map e = H.blocks)
    (hreach : ∀ a b, a ≠ b → (Relation.TransGen G.Edge a b ↔ Relation.TransGen H.Edge (e a) (e b)))
    (a : G.Block) : reachable H (e a) = (reachable G a).map e := by
  rw [reachable, ← hblocks, List.filter_map, reachable]
  refine congrArg (List.map e) (List.filter_congr fun b _ => ?_)
  rw [Function.comp_apply, decide_eq_decide, Ne, e.apply_eq_iff_eq]
  exact and_congr_right fun hne => (hreach a b hne).symm

variable (h : SameGraph G.fn G'.fn)
include h

theorem reachable_iso (B : G.Block) : reachable G' (h.iso B) = (reachable G B).map h.iso :=
  map_reachable (e := h.iso.toEquiv) h.map_blocks.symm (fun _ _ _ => (transGen_iso h.iso).symm) B

theorem line_iso (B : G.Block) (Bs : List G.Block) : line G' (h.iso B) (Bs.map h.iso) = line G B Bs := by
  have hnames : (fun C => G'.name C ++ " ") ∘ h.iso = fun C => G.name C ++ " " := by
    funext C
    rw [Function.comp_apply, h.name_iso]
  rw [line, line, h.name_iso, List.map_map, hnames]

/-- **The text of two functions with the same graph is the same.** -/
theorem traversePath_congr : traversePath G' = traversePath G := by
  have hlines : (fun B => line G' B (reachable G' B)) ∘ h.iso = fun B => line G B (reachable G B) := by
    funext B
    rw [Function.comp_apply, reachable_iso h, line_iso h]
  rw [traversePath, traversePath, traverseLines_eq, traverseLines_eq, h.name, h.map_blocks, List.map_map,
    hlines]

end Text

/-! ### The text of a module -/

/-- The graph of a function, if its blocks are distinct and its successors are blocks of it. -/
def Cfg.of? (F : Function) : Option Cfg :=
  if h : (F.blocks.map BasicBlock.id).Nodup ∧
      ∀ B ∈ F.blocks, ∀ b ∈ B.successors, b ∈ F.blocks.map BasicBlock.id then
    some ⟨F, h.1, h.2⟩
  else none

/-- The paragraph of a function. -/
def paragraph (F : Function) : Option String := (Cfg.of? F).map traversePath

/-- The functions a function pass runs on, in order: those that have a body. -/
def definitions (M : Module) : List Function := M.functions.filter (!·.isDeclaration)

/-- The paragraphs `cfg-path` prints for a module. -/
def paragraphs (M : Module) : Option (List String) := (definitions M).mapM paragraph

theorem Cfg.of?_eq_some {F : Function} {G : Cfg} : Cfg.of? F = some G ↔ G.fn = F := by
  rw [Cfg.of?]
  constructor
  · intro h
    split at h
    · cases h
      rfl
    · cases h
  · rintro rfl
    exact dif_pos ⟨G.nodup, G.closed⟩

theorem of?_of_wellFormed {M : Module} {F : Function} (h : F.WellFormed M) :
    Cfg.of? F = some (Cfg.ofFunction h) :=
  Cfg.of?_eq_some.mpr rfl

/-- The graphs of the functions that have a body, and what is printed for them. -/
theorem exists_cfgs {M : Module} (hM : M.WellFormed) :
    ∃ Gs : List Cfg, Gs.map Cfg.fn = definitions M ∧ paragraphs M = some (Gs.map traversePath) := by
  have hmapM : ∀ Fs : List Function, (∀ F ∈ Fs, F.WellFormed M) →
      ∃ Gs : List Cfg, Gs.map Cfg.fn = Fs ∧ Fs.mapM paragraph = some (Gs.map traversePath) := by
    intro Fs
    induction Fs with
    | nil => exact fun _ => ⟨[], rfl, rfl⟩
    | cons F Fs ih =>
      intro h
      obtain ⟨hF, hFs⟩ := List.forall_mem_cons.mp h
      obtain ⟨Gs, hGs, hps⟩ := ih hFs
      refine ⟨Cfg.ofFunction hF :: Gs, congrArg (F :: ·) hGs, ?_⟩
      rw [List.mapM_cons, hps, paragraph, of?_of_wellFormed hF]
      rfl
  exact hmapM _ fun F hF => hM.functions F (List.mem_filter.mp hF).1

/-- **`cfg-path` prints a paragraph for every function of a well-formed module that has a body.** -/
theorem paragraphs_exists {M : Module} (hM : M.WellFormed) :
    ∃ ps, paragraphs M = some ps ∧ ps.length = (definitions M).length := by
  obtain ⟨Gs, hGs, hps⟩ := exists_cfgs hM
  refine ⟨_, hps, ?_⟩
  rw [← hGs, List.length_map, List.length_map]

/-- The graph survives the rewriting, on both sides. -/
theorem SameGraph.cfg {F F' : Function} (h : SameGraph F F') {G : Cfg} (hG : G.fn = F) :
    ∃ G' : Cfg, G'.fn = F' := by
  subst hG
  refine ⟨⟨F', h.ids ▸ G.nodup, fun B hB b hb => ?_⟩, rfl⟩
  have hmem : node B ∈ G.fn.blocks.map node := h.nodes ▸ List.mem_map_of_mem hB
  obtain ⟨C, hC, hCB⟩ := List.mem_map.mp hmem
  have hterm : C.getTerminator = B.getTerminator := congrArg (fun n => n.2.2) hCB
  have hsucc : C.successors = B.successors := by
    rw [BasicBlock.successors, hterm, BasicBlock.successors]
  rw [h.ids]
  exact G.closed C hC b (hsucc ▸ hb)

theorem SameGraph.symm {F F' : Function} (h : SameGraph F F') : SameGraph F' F :=
  ⟨h.name.symm, h.nodes.symm⟩

/-- The paragraph of a function is kept. -/
theorem paragraph_congr {F F' : Function} (h : SameGraph F F') : paragraph F' = paragraph F := by
  rw [paragraph, paragraph]
  cases hG : Cfg.of? F with
  | none =>
    cases hG' : Cfg.of? F' with
    | none => rfl
    | some G' =>
      obtain ⟨G, hfn⟩ := h.symm.cfg (Cfg.of?_eq_some.mp hG')
      rw [Cfg.of?_eq_some.mpr hfn] at hG
      cases hG
  | some G =>
    have hfn := Cfg.of?_eq_some.mp hG
    obtain ⟨G', hfn'⟩ := h.cfg hfn
    rw [Cfg.of?_eq_some.mpr hfn', Option.map_some, Option.map_some]
    subst hfn
    subst hfn'
    rw [traversePath_congr h]

end SnippetsLlvm.CFGPath
