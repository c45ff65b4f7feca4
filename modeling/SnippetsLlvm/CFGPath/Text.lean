import SnippetsLlvm.CFGPath.SameGraph
import SnippetsLlvm.Ir.Verifier
import SnippetsLlvm.Library.Separated

/-!
# Reading back what `cfg-path` prints

`traversePath` writes a header with the name of the function and then a line for each block: its name, and the
names of the blocks listed, with a space after each.  Where no name has a space or a line break in it, and
functions are named, the text is a format: what was printed can be read back.

* `parseOutput` — the reader;
* `parseOutput_paragraphs` — **it returns what was printed for a module**: every function with a body, every
  block, and the names of the blocks reachable from it;
* `equiv_of_traversePath` — **with distinct names the text determines reachability**.
-/

namespace SnippetsLlvm.CFGPath

open SnippetsLlvm.Ir SnippetsLlvm.Library

/-! ### The reader -/

/-- A line: the name before the colon, and the names listed. -/
def parseLine (l : List Char) : String × List String :=
  match terminatedWords ' ' l with
  | [] => ("", [])
  | w :: ws => (String.ofList w.dropLast, ws.map String.ofList)

/-- A header does not end with a space, a line does. -/
def isHeader (l : List Char) : Bool := l.getLast? ≠ some ' '

/-- The name in a header. -/
def parseHeader (l : List Char) : String := String.ofList (l.drop "Func: ".length)

/-- **The reader**: each function with its lines. -/
def parseOutput (text : String) : List (String × List (String × List String)) :=
  (groups isHeader (terminatedWords '\n' text.toList)).2.map fun p => (parseHeader p.1, p.2.map parseLine)

/-- A name without a space or a line break. -/
def Plain (name : String) : Prop := ' ' ∉ name.toList ∧ '\n' ∉ name.toList

/-- What is to be read back for a function. -/
noncomputable def report (G : Cfg) : String × List (String × List String) :=
  (G.fn.name, G.blocks.map fun B1 => (G.name B1, (reachable G B1).map G.name))

/-! ### The text as words -/

section Words

variable (G : Cfg)

/-- The words of a line. -/
def lineWords (B1 : G.Block) (Bs : List G.Block) : List (List Char) :=
  (G.name B1 ++ ":").toList :: Bs.map fun B2 => (G.name B2).toList

theorem toList_line (B1 : G.Block) (Bs : List G.Block) :
    (line G B1 Bs).toList = (lineWords G B1 Bs).flatMap (· ++ [' ']) ++ ['\n'] := by
  have hcolon : ": ".toList = ":".toList ++ [' '] := rfl
  have hnames : (String.join (Bs.map fun B2 => G.name B2 ++ " ")).toList =
      (Bs.map fun B2 => (G.name B2).toList).flatMap (· ++ [' ']) := by
    rw [toList_join, List.flatMap_map, List.flatMap_map]
    refine List.flatMap_congr fun B2 _ => ?_
    rw [String.toList_append]
    rfl
  rw [line, lineWords, String.toList_append, String.toList_append, String.toList_append, hnames, hcolon,
    List.flatMap_cons, String.toList_append]
  simp only [List.append_assoc]
  rfl

/-- The header without its line break. -/
def headerChars : List Char := "Func: ".toList ++ G.fn.name.toList

/-- A line without its line break. -/
noncomputable def lineChars (B1 : G.Block) : List Char := (lineWords G B1 (reachable G B1)).flatMap (· ++ [' '])

/-- The text is made of lines. -/
theorem toList_traversePath :
    (traversePath G).toList = (headerChars G :: G.blocks.map (lineChars G)).flatMap (· ++ ['\n']) := by
  have hlines : (String.join (traverseLines G ∅ G.blocks)).toList =
      (G.blocks.map (lineChars G)).flatMap (· ++ ['\n']) := by
    rw [toList_join, traverseLines_eq, List.flatMap_map, List.flatMap_map]
    exact List.flatMap_congr fun B1 _ => toList_line G B1 (reachable G B1)
  rw [traversePath, String.toList_append, String.toList_append, String.toList_append, hlines, List.flatMap_cons,
    headerChars]
  rfl

end Words

/-! ### Reading it back -/

/-- The names in a function that can be read back. -/
structure Readable (F : Function) : Prop where
  named : F.name ≠ ""
  plainName : Plain F.name
  plainBlocks : ∀ B ∈ F.blocks, Plain B.name

section Read

variable {G : Cfg} (hG : Readable G.fn)
include hG

theorem Readable.plain (b : G.Block) : Plain (G.name b) := by
  rw [Cfg.name]
  cases hB : G.fn.block? b.1 with
  | none => exact ⟨List.not_mem_nil, List.not_mem_nil⟩
  | some B => exact hG.plainBlocks B (List.mem_of_find?_eq_some hB)

/-- No word of a line has a space or a line break in it. -/
theorem notMem_lineWords {B1 : G.Block} {Bs : List G.Block} {w : List Char} (hw : w ∈ lineWords G B1 Bs) :
    ' ' ∉ w ∧ '\n' ∉ w := by
  rcases List.mem_cons.mp hw with rfl | hw
  · have hplain := hG.plain B1
    rw [String.toList_append, List.mem_append, List.mem_append]
    exact ⟨not_or.mpr ⟨hplain.1, by decide⟩, not_or.mpr ⟨hplain.2, by decide⟩⟩
  · obtain ⟨B2, -, rfl⟩ := List.mem_map.mp hw
    exact hG.plain B2

theorem parseLine_lineChars (B1 : G.Block) :
    parseLine (lineChars G B1) = (G.name B1, (reachable G B1).map G.name) := by
  rw [parseLine, lineChars, terminatedWords_flatMap fun w hw => (notMem_lineWords hG hw).1, lineWords]
  have hname : (G.name B1 ++ ":").toList.dropLast = (G.name B1).toList := by
    rw [String.toList_append]
    exact List.dropLast_concat
  simp only [hname, String.ofList_toList, List.map_map, Prod.mk.injEq, true_and]
  exact List.map_congr_left fun B2 _ => String.ofList_toList

omit hG in
theorem isHeader_lineChars (B1 : G.Block) : isHeader (lineChars G B1) = false := by
  have hne : lineWords G B1 (reachable G B1) ≠ [] := List.cons_ne_nil _ _
  rw [isHeader, lineChars, getLast?_terminated hne]
  simp

theorem isHeader_headerChars : isHeader (headerChars G) = true := by
  have hne : G.fn.name.toList ≠ [] := fun h => hG.named (String.toList_eq_nil_iff.mp h)
  obtain ⟨cs, c, hcs⟩ := (List.eq_nil_or_concat' G.fn.name.toList).resolve_left hne
  have hc : c ≠ ' ' := by
    rintro rfl
    exact hG.plainName.1 (hcs ▸ List.mem_append_right cs (List.mem_singleton_self _))
  rw [isHeader, headerChars, hcs, ← List.append_assoc, List.getLast?_concat]
  simpa using hc

theorem notMem_headerChars : '\n' ∉ headerChars G := by
  rw [headerChars, List.mem_append]
  exact not_or.mpr ⟨by decide, hG.plainName.2⟩

theorem notMem_lineChars (B1 : G.Block) : '\n' ∉ lineChars G B1 := by
  intro h
  obtain ⟨w, hw, hmem⟩ := List.mem_flatMap.mp h
  rcases List.mem_append.mp hmem with hmem | hmem
  · exact (notMem_lineWords hG hw).2 hmem
  · exact absurd (List.mem_singleton.mp hmem) (by decide)

end Read

theorem parseHeader_headerChars (G : Cfg) : parseHeader (headerChars G) = G.fn.name := by
  have hdrop : (headerChars G).drop "Func: ".length = G.fn.name.toList := List.drop_left
  rw [parseHeader, hdrop, String.ofList_toList]

/-- **What was printed for a list of functions is read back.** -/
theorem parseOutput_join {Gs : List Cfg} (hGs : ∀ G ∈ Gs, Readable G.fn) :
    parseOutput (String.join (Gs.map traversePath)) = Gs.map report := by
  have htext : (String.join (Gs.map traversePath)).toList =
      ((Gs.map fun G => (headerChars G, G.blocks.map (lineChars G))).flatMap fun p => p.1 :: p.2).flatMap
        (· ++ ['\n']) := by
    rw [toList_join, List.flatMap_map, List.flatMap_map, List.flatMap_assoc]
    exact List.flatMap_congr fun G _ => toList_traversePath G
  have hlines : ∀ w ∈ (Gs.map fun G => (headerChars G, G.blocks.map (lineChars G))).flatMap fun p => p.1 :: p.2,
      '\n' ∉ w := by
    intro w hw
    obtain ⟨p, hp, hw⟩ := List.mem_flatMap.mp hw
    obtain ⟨G, hG, rfl⟩ := List.mem_map.mp hp
    rcases List.mem_cons.mp hw with rfl | hw
    · exact notMem_headerChars (hGs G hG)
    · obtain ⟨B1, -, rfl⟩ := List.mem_map.mp hw
      exact notMem_lineChars (hGs G hG) B1
  rw [parseOutput, htext, terminatedWords_flatMap hlines, groups_flatMap, List.map_map]
  · refine List.map_congr_left fun G hG => ?_
    show (parseHeader (headerChars G), (G.blocks.map (lineChars G)).map parseLine) = report G
    rw [parseHeader_headerChars, List.map_map, report]
    exact congrArg _ (List.map_congr_left fun B1 _ => parseLine_lineChars (hGs G hG) B1)
  · intro p hp
    obtain ⟨G, hG, rfl⟩ := List.mem_map.mp hp
    refine ⟨isHeader_headerChars (hGs G hG), fun l hl => ?_⟩
    obtain ⟨B1, -, rfl⟩ := List.mem_map.mp hl
    exact isHeader_lineChars B1

/-- **What `cfg-path` prints for a module is read back**: for every function that has a body, in order, the names of
its blocks, each with the names of the blocks reachable from it. -/
theorem parseOutput_paragraphs {M : Module} (hM : M.WellFormed) (hnames : ∀ F ∈ definitions M, Readable F) :
    ∃ ps, paragraphs M = some ps ∧ ∃ Gs : List Cfg, Gs.map Cfg.fn = definitions M ∧
      parseOutput (String.join ps) = Gs.map report := by
  obtain ⟨Gs, hGs, hps⟩ := exists_cfgs hM
  refine ⟨_, hps, Gs, hGs, parseOutput_join fun G hG => hnames G.fn ?_⟩
  rw [← hGs]
  exact List.mem_map_of_mem hG

/-- `void walk(_Bool b)` with three blocks, of which the first may go to the last one at once. -/
def walkFn (first : List Value) : Function :=
  ⟨0, "walk", ⟨.void, [.integer 1], false⟩, .external, ⟨[], []⟩, false, 0, none, none, none, none,
    [⟨0, "entry", [⟨0, .br, .void, first, false⟩]⟩, ⟨1, "body", [⟨1, .br, .void, [.block 2], false⟩]⟩,
      ⟨2, "exit", [⟨2, .ret, .void, [], false⟩]⟩], 3, 3⟩

/-- The module whose blocks follow one another. -/
def straightModule : Module := ⟨[walkFn [.block 1]], [], [], [], [], 1, 0⟩

/-- The module with the shortcut. -/
def shortcutModule : Module :=
  ⟨[walkFn [.arg 0 (.integer 1), .block 2, .block 1]], [], [], [], [], 1, 0⟩

theorem readable_walkFn (first : List Value) : Readable (walkFn first) where
  named := by simp [walkFn]
  plainName := ⟨by simp [walkFn], by simp [walkFn]⟩
  plainBlocks := by simp [walkFn, Plain]

theorem parseOutput_paragraphs_straight : ∃ ps, paragraphs straightModule = some ps ∧ ∃ Gs : List Cfg,
    Gs.map Cfg.fn = definitions straightModule ∧ parseOutput (String.join ps) = Gs.map report := by
  refine parseOutput_paragraphs (Module.Verified.wellFormed (by decide)) fun F hF => ?_
  rw [List.mem_singleton.mp (List.mem_filter.mp hF).1]
  exact readable_walkFn _

/-! ### What the text determines -/

/-- The same function name, and blocks in the same order with the same names and the same reachability. -/
def SameReach (G H : Cfg) : Prop :=
  G.fn.name = H.fn.name ∧ ∃ e : G.Block ≃ H.Block, G.blocks.map e = H.blocks ∧
    (∀ b, H.name (e b) = G.name b) ∧
      ∀ a b, a ≠ b → (Relation.TransGen G.Edge a b ↔ Relation.TransGen H.Edge (e a) (e b))

/-- The text of a report. -/
def render (r : String × List (String × List String)) : String :=
  "Func: " ++ r.1 ++ "\n" ++
    String.join (r.2.map fun l => l.1 ++ ": " ++ String.join (l.2.map (· ++ " ")) ++ "\n")

/-- The text depends on the report only. -/
theorem traversePath_eq_render (G : Cfg) : traversePath G = render (report G) := by
  rw [traversePath, traverseLines_eq, render, report, List.map_map]
  refine congrArg (fun ls => _ ++ String.join ls) (List.map_congr_left fun B1 _ => ?_)
  rw [line, Function.comp_apply, List.map_map]
  rfl

section Determined

variable {G H : Cfg}

theorem SameReach.report_eq (h : SameReach G H) : report G = report H := by
  obtain ⟨hname, e, hblocks, hnames, hreach⟩ := h
  rw [report, report, hname, ← hblocks, List.map_map]
  refine congrArg _ (List.map_congr_left fun a _ => ?_)
  rw [Function.comp_apply, hnames, map_reachable hblocks hreach, List.map_map]
  exact congrArg _ (List.map_congr_left fun b _ => (hnames b).symm)

/-- The names of the blocks, in order. -/
theorem map_name_blocks (G : Cfg) : G.blocks.map G.name = G.fn.blocks.map BasicBlock.name := by
  calc G.blocks.map G.name
      = (G.blocks.map Subtype.val).map fun b => ((G.fn.block? b).map BasicBlock.name).getD "" := by
        rw [List.map_map]
        rfl
    _ = G.fn.blocks.map fun B => ((G.fn.block? B.id).map BasicBlock.name).getD "" := by
        rw [Cfg.blocks, List.attach_map_subtype_val, List.map_map]
        rfl
    _ = G.fn.blocks.map BasicBlock.name := by
        refine List.map_congr_left fun B hB => ?_
        rw [Function.block?, Module.find?_of_mem_nodup G.nodup hB]
        rfl

/-- With distinct names, blocks are told by them. -/
theorem name_injective (hG : (G.fn.blocks.map BasicBlock.name).Nodup) : Function.Injective G.name := by
  rw [← map_name_blocks] at hG
  intro a b hab
  exact List.inj_on_of_nodup_map hG (G.mem_blocks a) (G.mem_blocks b) hab

/-- A list of names fixes the correspondence. -/
theorem exists_equiv (hG : Function.Injective G.name) (hH : Function.Injective H.name)
    (hnames : G.blocks.map G.name = H.blocks.map H.name) : ∃ e : G.Block ≃ H.Block, ∀ b, H.name (e b) = G.name b := by
  have hpartner : ∀ a : G.Block, ∃ b : H.Block, H.name b = G.name a := by
    intro a
    have hmem : G.name a ∈ H.blocks.map H.name := hnames ▸ List.mem_map_of_mem (G.mem_blocks a)
    obtain ⟨b, -, hb⟩ := List.mem_map.mp hmem
    exact ⟨b, hb⟩
  choose f hf using hpartner
  have hbij : Function.Bijective f := by
    constructor
    · intro a a' haa'
      exact hG (by rw [← hf a, ← hf a', haa'])
    · intro b
      have hmem : H.name b ∈ G.blocks.map G.name := hnames ▸ List.mem_map_of_mem (H.mem_blocks b)
      obtain ⟨a, -, ha⟩ := List.mem_map.mp hmem
      exact ⟨a, hH ((hf a).trans ha)⟩
  exact ⟨Equiv.ofBijective f hbij, hf⟩

/-- **With distinct names the report determines reachability.** -/
theorem sameReach_of_report (hG : (G.fn.blocks.map BasicBlock.name).Nodup)
    (hH : (H.fn.blocks.map BasicBlock.name).Nodup) (h : report G = report H) : SameReach G H := by
  have hinj := List.map_injective_iff.mpr (name_injective hH)
  rw [report, report, Prod.mk.injEq] at h
  obtain ⟨hname, hlines⟩ := h
  have hnames : G.blocks.map G.name = H.blocks.map H.name := by
    have hfst := congrArg (List.map Prod.fst) hlines
    rwa [List.map_map, List.map_map] at hfst
  obtain ⟨e, he⟩ := exists_equiv (name_injective hG) (name_injective hH) hnames
  have hcomp : H.name ∘ e = G.name := funext he
  have hblocks : G.blocks.map e = H.blocks := hinj (by rw [List.map_map, hcomp, hnames])
  rw [← hblocks, List.map_map] at hlines
  refine ⟨hname, e, hblocks, he, fun a b hne => ?_⟩
  have hline : (reachable G a).map G.name = (reachable H (e a)).map H.name :=
    (Prod.mk.inj (List.map_inj_left.mp hlines a (G.mem_blocks a))).2
  have hreach : (reachable G a).map e = reachable H (e a) := hinj (by rw [List.map_map, hcomp, hline])
  calc Relation.TransGen G.Edge a b ↔ b ∈ reachable G a := by
        rw [mem_reachable]
        exact ⟨fun hp => ⟨hne, hp⟩, fun hp => hp.2⟩
    _ ↔ e b ∈ reachable H (e a) := by rw [← hreach, List.mem_map_of_injective e.injective]
    _ ↔ Relation.TransGen H.Edge (e a) (e b) := by
        rw [mem_reachable]
        exact ⟨fun hp => hp.2, fun hp => ⟨e.injective.ne hne, hp⟩⟩

end Determined

/-- The blocks of a function have distinct names that can be read back. -/
structure Legible (F : Function) : Prop extends Readable F where
  distinct : (F.blocks.map BasicBlock.name).Nodup

/-- Function by function, equal reports are equal reachability. -/
theorem forall₂_sameReach {Gs Hs : List Cfg} (hGs : ∀ G ∈ Gs, Legible G.fn) (hHs : ∀ H ∈ Hs, Legible H.fn) :
    Gs.map report = Hs.map report ↔ List.Forall₂ SameReach Gs Hs := by
  constructor
  · intro h
    induction Gs generalizing Hs with
    | nil =>
      rw [List.map_eq_nil_iff.mp h.symm]
      exact .nil
    | cons G Gs ih =>
      obtain ⟨H, Hs', rfl, hGH, htail⟩ := List.map_eq_cons_iff.mp h.symm
      rw [List.forall_mem_cons] at hGs hHs
      exact .cons (sameReach_of_report hGs.1.distinct hHs.1.distinct hGH.symm) (ih hGs.2 hHs.2 htail.symm)
  · intro h
    rw [← List.forall₂_eq_eq_eq, List.forall₂_map_left_iff, List.forall₂_map_right_iff]
    exact h.imp fun G H hGH => hGH.report_eq

/-- **Two modules get the same text exactly when their functions have the same reachability**, function by function
and block by block, if names can be read back and told apart. -/
theorem output_eq_iff {M N : Module} (hM : M.WellFormed) (hN : N.WellFormed)
    (hMnames : ∀ F ∈ definitions M, Legible F) (hNnames : ∀ F ∈ definitions N, Legible F) :
    ∃ (ps qs : List String) (Gs Hs : List Cfg), paragraphs M = some ps ∧ paragraphs N = some qs ∧
      Gs.map Cfg.fn = definitions M ∧ Hs.map Cfg.fn = definitions N ∧
        (String.join ps = String.join qs ↔ List.Forall₂ SameReach Gs Hs) := by
  obtain ⟨Gs, hGs, hps⟩ := exists_cfgs hM
  obtain ⟨Hs, hHs, hqs⟩ := exists_cfgs hN
  have hGlegible : ∀ G ∈ Gs, Legible G.fn := fun G hG => hMnames G.fn (hGs ▸ List.mem_map_of_mem hG)
  have hHlegible : ∀ H ∈ Hs, Legible H.fn := fun H hH => hNnames H.fn (hHs ▸ List.mem_map_of_mem hH)
  refine ⟨_, _, Gs, Hs, hps, hqs, hGs, hHs, ?_⟩
  constructor
  · intro h
    have hreports : Gs.map report = Hs.map report := by
      rw [← parseOutput_join fun G hG => (hGlegible G hG).toReadable,
        ← parseOutput_join fun H hH => (hHlegible H hH).toReadable, h]
    exact (forall₂_sameReach hGlegible hHlegible).mp hreports
  · intro h
    have hreports : Gs.map report = Hs.map report := (forall₂_sameReach hGlegible hHlegible).mpr h
    have htext : ∀ Fs : List Cfg, Fs.map traversePath = (Fs.map report).map render := by
      intro Fs
      rw [List.map_map]
      exact List.map_congr_left fun G _ => traversePath_eq_render G
    rw [htext Gs, htext Hs, hreports]

theorem legible_walkFn (first : List Value) : Legible (walkFn first) where
  toReadable := readable_walkFn first
  distinct := by simp [walkFn]

/-- The shortcut is not to be seen in the text. -/
theorem output_eq_iff_shortcut : ∃ (ps qs : List String) (Gs Hs : List Cfg),
    paragraphs straightModule = some ps ∧ paragraphs shortcutModule = some qs ∧
      Gs.map Cfg.fn = definitions straightModule ∧ Hs.map Cfg.fn = definitions shortcutModule ∧
        (String.join ps = String.join qs ↔ List.Forall₂ SameReach Gs Hs) := by
  refine output_eq_iff (Module.Verified.wellFormed (by decide)) (Module.Verified.wellFormed (by decide))
    (fun F hF => ?_) fun F hF => ?_
  · rw [List.mem_singleton.mp (List.mem_filter.mp hF).1]
    exact legible_walkFn _
  · rw [List.mem_singleton.mp (List.mem_filter.mp hF).1]
    exact legible_walkFn _

end SnippetsLlvm.CFGPath
