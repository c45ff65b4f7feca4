import SnippetsLlvm.PosixMain.Pass
import Mathlib.Data.List.Perm.Basic

/-!
# What `posix-main` leaves

On a well-formed module the renaming, the creation and the splice come down to one edit of the list of
functions: the old `main` is taken out and a function of the new type with its blocks is put at the end.

* `Unused` — no use of a function remains once it is destroyed;
* `replaced` — the module with the new `main`;
* `replaceMain_eq` — **the pass leaves `replaced` if the old `main` is unused, and fails otherwise**;
* `functions_perm`, `names_perm` — nothing but `main` changes, and no name is lost.
-/

namespace SnippetsLlvm.PosixMain

open SnippetsLlvm.Ir SnippetsLlvm.Library

/-! ### Uses -/

/-- Nothing in the module, a personality of `main` itself apart, uses `main`. -/
structure Unused (M : Module) (main : Function) : Prop where
  insts : ∀ F ∈ M.functions, ∀ I ∈ F.insts, I.mentions main.id = false
  personalities : ∀ F ∈ M.functions, F.id ≠ main.id → ∀ c, F.personality = some c →
    c.mentions main.id = false
  initializers : ∀ G ∈ M.globals, ∀ c, G.initializer = some c → c.mentions main.id = false
  aliasees : ∀ A ∈ M.aliases, A.aliasee.mentions main.id = false
  resolvers : ∀ I ∈ M.ifuncs, I.resolver.mentions main.id = false

/-- The new `main`. -/
def newMain (M : Module) (main : Function) : Function :=
  ⟨M.nextGlobal, "main", mainTy, main.linkage, main.attributes, false, 0, none, none, none, none, main.blocks,
    main.nextValue, main.nextBlock⟩

/-- The module with the new `main`. -/
def replaced (M : Module) (main : Function) : Module :=
  { M with
    functions := M.functions.filter (·.id ≠ main.id) ++ [newMain M main]
    nextGlobal := M.nextGlobal + 1
    lastUnique := (M.setFunctionName main.id "old_main").lastUnique }

/-! ### The list of functions -/

theorem main_mem {M : Module} {main : Function} (hmain : M.getFunction "main" = some main) :
    main ∈ M.functions := Module.mem_functions_of_getFunction hmain

theorem main_name {M : Module} {main : Function} (hmain : M.getFunction "main" = some main) :
    main.name = "main" := Module.name_of_getFunction hmain

section Lists

variable {M : Module} {main : Function} (hM : M.WellFormed) (hmain : M.getFunction "main" = some main)
include hM hmain

theorem eq_main {F : Function} (hF : F ∈ M.functions) (hid : F.id = main.id) : F = main := by
  have h₁ := hM.function?_of_mem hF
  have h₂ := hM.function?_of_mem (main_mem hmain)
  rw [hid, h₂] at h₁
  exact (Option.some.inj h₁).symm

/-- Taking `main` out of the list leaves the other functions. -/
theorem functions_perm :
    M.functions.Perm (main :: M.functions.filter (·.id ≠ main.id)) :=
  Module.perm_cons_filter_nodup hM.functionIds (main_mem hmain)

omit hM hmain in
variable (M main) in
/-- The globals other than `main`. -/
def others : List GlobalValue :=
  (M.functions.filter (·.id ≠ main.id)).map .function ++ M.globals.map .variable ++
    M.aliases.map .alias ++ M.ifuncs.map .ifunc

theorem perm_others : M.globalValues.Perm (.function main :: others M main) := by
  have h := (functions_perm hM hmain).map GlobalValue.function
  simp only [Module.globalValues, others, List.append_assoc]
  exact h.append_right _

omit hM hmain in
variable (M main) in
theorem replaced_perm_others :
    (replaced M main).globalValues.Perm (.function (newMain M main) :: others M main) := by
  simp only [Module.globalValues, replaced, others, List.map_append, List.append_assoc,
    List.map_cons, List.map_nil]
  exact List.perm_middle

omit hM hmain in
/-- What is not `main` stays as it is under an edit of `main`. -/
theorem map_edit_others (f : Function → Function) (Fs : List Function) :
    (Fs.filter (·.id ≠ main.id)).map (fun F => if F.id = main.id then f F else F) =
      Fs.filter (·.id ≠ main.id) := by
  refine (List.map_congr_left fun F hF => ?_).trans (List.map_id _)
  have hne : F.id ≠ main.id := by simpa using (List.mem_filter.mp hF).2
  exact if_neg hne

/-- An edit of `main` leaves the other globals. -/
theorem modify_perm_others (f : Function → Function) :
    (M.modifyFunction main.id f).globalValues.Perm (.function (f main) :: others M main) := by
  have hfns := (functions_perm hM hmain).map fun F => if F.id = main.id then f F else F
  rw [List.map_cons, if_pos rfl, map_edit_others] at hfns
  have h := hfns.map GlobalValue.function
  simp only [Module.globalValues, others, List.append_assoc]
  exact h.append_right _

/-- **No name is lost**, and none is new. -/
theorem names_perm : (replaced M main).names.Perm M.names := by
  have h₁ := (perm_others hM hmain).map GlobalValue.name
  have h₂ := (replaced_perm_others M main).map GlobalValue.name
  have hname : (newMain M main).name = main.name := (main_name hmain).symm
  refine h₂.trans (List.Perm.trans ?_ h₁.symm)
  rw [List.map_cons, List.map_cons]
  show ((newMain M main).name :: _).Perm (main.name :: _)
  rw [hname]

/-- No other global is called `main`. -/
theorem main_notMem_others : "main" ∉ (others M main).map GlobalValue.name := by
  intro hmem
  have hperm := ((perm_others hM hmain).map GlobalValue.name).filter (· ≠ "")
  have hnodup := hperm.nodup_iff.mp hM.names
  have hname : GlobalValue.name (.function main) = "main" := main_name hmain
  rw [List.map_cons, hname, List.filter_cons_of_pos (by decide), List.nodup_cons] at hnodup
  exact hnodup.1 (List.mem_filter.mpr ⟨hmem, by decide⟩)

/-! ### The edits of `replaceMain` -/

omit hM hmain in
/-- The old function does not get its name back: a name made from `old_main` is longer. -/
theorem old_ne_main (N : Module) : (N.uniqueName "old_main").1 ≠ "main" := by
  obtain ⟨suffix, hsuffix⟩ := N.uniqueName_append "old_main"
  rw [hsuffix]
  intro h
  have hlen := congrArg (fun s => s.toList.length) h
  simp only [String.toList_append, List.length_append] at hlen
  have h₁ : ("old_main" : String).toList.length = 8 := by decide
  have h₂ : ("main" : String).toList.length = 4 := by decide
  omega

/-- The name `main` is free once the old function is renamed. -/
theorem main_notMem_renamed : "main" ∉ (M.setFunctionName main.id "old_main").names := by
  have hperm := (modify_perm_others hM hmain fun F =>
    { F with name := ((M.modifyFunction main.id fun F => { F with name := "" }).uniqueName
      "old_main").1 }).map GlobalValue.name
  intro hmem
  rcases List.mem_cons.mp (hperm.mem_iff.mp hmem) with h | h
  · exact old_ne_main _ h.symm
  · exact main_notMem_others hM hmain h

omit hM hmain in
/-- An edit that keeps identities and changes nothing but `main` is undone by taking `main` out. -/
theorem filter_map_edit {e : Function → Function} {Fs : List Function}
    (hid : ∀ F, (e F).id = F.id) (hkeep : ∀ F ∈ Fs, F.id ≠ main.id → e F = F) :
    (Fs.map e).filter (·.id ≠ main.id) = Fs.filter (·.id ≠ main.id) := by
  rw [List.filter_map]
  have hp : ((fun F : Function => decide (F.id ≠ main.id)) ∘ e) = fun F => decide (F.id ≠ main.id) := by
    funext F
    simp only [Function.comp_apply, hid]
  rw [hp]
  refine (List.map_congr_left fun F hF => ?_).trans (List.map_id _)
  obtain ⟨hmem, hne⟩ := List.mem_filter.mp hF
  exact hkeep F hmem (by simpa using hne)

omit hM hmain in
variable (M main) in
/-- The copy of the attributes and the splice, on one function. -/
def moveBody (F : Function) : Function :=
  let F := if F.id = M.nextGlobal then { F with attributes := main.attributes } else F
  let F := if F.id = M.nextGlobal then
    { F with blocks := main.blocks ++ F.blocks, nextValue := main.nextValue,
             nextBlock := main.nextBlock } else F
  if F.id = main.id then { F with blocks := [] } else F

omit hM hmain in
@[simp] theorem moveBody_id (F : Function) : (moveBody M main F).id = F.id := by
  simp only [moveBody]
  split_ifs <;> rfl

omit hM hmain in
theorem moveBody_other {F : Function} (hnew : F.id ≠ M.nextGlobal) (hold : F.id ≠ main.id) :
    moveBody M main F = F := by
  simp [moveBody, hnew, hold]

omit hM hmain in
variable (M main) in
/-- The new function when it is created. -/
def emptyMain : Function :=
  ⟨M.nextGlobal, "main", mainTy, main.linkage, ⟨[], []⟩, false, 0, none, none, none, none, [], 0, 0⟩

/-- The creation, the copy of the attributes, the splice and the removal, in one. -/
theorem erased_eq :
    let renamed := M.setFunctionName main.id "old_main"
    let created := renamed.addFunction mainTy main.linkage "main" ⟨[], []⟩
    let attributed := created.1.modifyFunction created.2.id fun F =>
      { F with attributes := main.attributes }
    (spliceBlocks attributed created.2.id main).eraseFunction main.id = replaced M main := by
  intro renamed created attributed
  have hname : renamed.uniqueName "main" = ("main", renamed.lastUnique) :=
    Module.uniqueName_of_notMem (main_notMem_renamed hM hmain)
  have hne : M.nextGlobal ≠ main.id := (Nat.ne_of_lt (hM.function_lt (main_mem hmain))).symm
  have hcreated : created = ({ renamed with
      functions := renamed.functions ++ [emptyMain M main], nextGlobal := M.nextGlobal + 1 },
      emptyMain M main) := by
    simp only [created, Module.addFunction, hname]
    rfl
  have hfns : (spliceBlocks attributed created.2.id main).functions =
      (created.1.functions.map (moveBody M main)) := by
    simp only [spliceBlocks, attributed, Module.modifyFunction, List.map_map, hcreated]
    rfl
  have hmoved : moveBody M main (emptyMain M main) = newMain M main := by
    simp [moveBody, emptyMain, newMain, hne]
  have hlist : ((created.1.functions.map (moveBody M main)).filter (·.id ≠ main.id)) =
      M.functions.filter (·.id ≠ main.id) ++ [newMain M main] := by
    have hren : renamed.functions = M.functions.map fun F => if F.id = main.id then
      { F with name := ((M.modifyFunction main.id fun F => { F with name := "" }).uniqueName
        "old_main").1 } else F := rfl
    rw [hcreated, List.map_append, List.filter_append, List.map_cons, List.map_nil, hmoved, hren,
      List.map_map]
    congr 1
    · refine filter_map_edit (fun F => ?_) fun F hF hid => ?_
      · rw [Function.comp_apply, moveBody_id]
        split <;> rfl
      · rw [Function.comp_apply, if_neg hid]
        exact moveBody_other (Nat.ne_of_lt (hM.function_lt hF)) hid
    · simp [newMain, hne]
  have hlast : created.1.lastUnique = renamed.lastUnique := by rw [hcreated]
  rw [Module.eraseFunction, hfns, hlist]
  show ({ M with functions := _, nextGlobal := _, lastUnique := created.1.lastUnique } : Module) = _
  rw [hlast]
  rfl

/-! ### When the removal succeeds -/

omit hM hmain in
theorem insts_newMain : (newMain M main).insts = main.insts := rfl

/-- Nothing uses the old function exactly when nothing did before. -/
theorem hasUses_replaced : hasUses (replaced M main) main.id = false ↔ Unused M main := by
  have hpers : (newMain M main).personality = none := rfl
  simp only [hasUses, replaced, Bool.or_eq_false_iff, List.any_append, List.any_cons, List.any_nil,
    Bool.or_false, insts_newMain, hpers, Option.any_none, List.any_eq_false, Option.any_eq_true,
    List.mem_filter, decide_eq_true_eq, Bool.or_eq_true, not_or, not_exists, not_and,
    Bool.not_eq_true, and_imp]
  constructor
  · rintro ⟨⟨⟨⟨hfns, hmainInsts⟩, hglobals⟩, haliases⟩, hifuncs⟩
    refine ⟨fun F hF I hI => ?_, fun F hF hne c hc => (hfns F hF hne).2 c hc, hglobals, haliases,
      hifuncs⟩
    by_cases hid : F.id = main.id
    · rw [eq_main hM hmain hF hid] at hI
      exact hmainInsts I hI
    · exact (hfns F hF hid).1 I hI
  · intro h
    exact ⟨⟨⟨⟨fun F hF hne => ⟨h.insts F hF, h.personalities F hF hne⟩,
      h.insts main (main_mem hmain)⟩, h.initializers⟩, h.aliasees⟩, h.resolvers⟩

/-- **The branch for a `main` without parameters**: the module is `replaced`, unless the old function is
still used. -/
theorem replaceMain_eq (hparams : main.type.params = []) :
    replaceMain M main =
      if hasUses (replaced M main) main.id then .error .usesRemain
      else .ok ⟨[], true, replaced M main⟩ := by
  have herased := erased_eq hM hmain
  dsimp only at herased
  have hassert : assertThat (decide (main.type.params.length = 0)) "main->arg_size() == 0" =
      .ok () := by
    rw [hparams]
    rfl
  rw [replaceMain, hassert]
  simp only [Except.bind, eraseFromParent, herased]
  split <;> rfl

end Lists

end SnippetsLlvm.PosixMain
