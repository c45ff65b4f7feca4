import SnippetsLlvm.CountBB.OneCounter
import SnippetsLlvm.CountBB.Outcomes

/-!
# One run of `count-bb` on any module

What a run does to the blocks of a function, whatever the module has under the names the pass uses, and what makes
another run possible.

* `CountedTimes` — a block counted any number of times; `CountedTimes.trans` — counting a counted block;
* `countedTimes_rewritten` — **one run counts every function but the handler once**;
* `foundCounter_again`, `instrumentable_again` — **the next run finds the same counter and may be made**.
-/

namespace SnippetsLlvm.CountBB

open SnippetsLlvm.Ir SnippetsLlvm.Library

/-! ### Blocks counted any number of times -/

/-- The block is the first one of `main`. -/
def IsFront (main F : Function) (B : BasicBlock) : Prop :=
  F.id = main.id ∧ main.blocks.head?.map BasicBlock.id = some B.id

/-- `B'` is the block `B` of `F` counted `k` times on the variable `c`; the front of `main` registers the function
`h` with the function `a` as often. -/
structure CountedTimes (main : Function) (c : GlobalVariable) (a h k : ℕ) (F : Function) (B B' : BasicBlock) :
    Prop where
  id_eq : B'.id = B.id
  insts_eq : ∃ calls ns : List ℕ, ns.length = k ∧ (∀ n ∈ ns, F.nextValue ≤ n) ∧
    (IsFront main F B → calls.length = k) ∧ (¬ IsFront main F B → calls = []) ∧
    B'.insts = (calls.map fun n => registerCall n a h) ++ B.insts.dropLast ++
      ns.flatMap (fun n => countInsts n c) ++ B.insts.getLast?.toList

theorem exists_left_of_mem {α β : Type} {R : α → β → Prop} {as : List α} {bs : List β} (h : List.Forall₂ R as bs)
    {b : β} (hb : b ∈ bs) : ∃ a ∈ as, R a b := by
  induction h with
  | nil => cases hb
  | @cons a b' as bs hr _ ih =>
    rcases List.mem_cons.mp hb with rfl | hb
    · exact ⟨a, List.mem_cons_self, hr⟩
    · obtain ⟨a', ha', hr'⟩ := ih hb
      exact ⟨a', List.mem_cons_of_mem a ha', hr'⟩

/-! ### Functions by name -/

theorem okSymbol_of_getFunction {M : Module} {name : String} {F : Function} (hF : M.getFunction name = some F) :
    OkSymbol M name F.type := by
  intro V hV
  rw [Module.getFunction_eq_some.mp hF, Option.some.injEq] at hV
  exact ⟨F, hV.symm, rfl⟩

/-! ### Counting again -/

section Blocks

variable {main main' F F' : Function} {c : GlobalVariable} {a h j k m : ℕ} {B B' B'' : BasicBlock}

theorem countedTimes_zero (hB : B.insts ≠ []) : CountedTimes main c a h 0 F B B := by
  refine ⟨rfl, [], [], rfl, by simp, fun _ => rfl, fun _ => rfl, ?_⟩
  rw [List.getLast?_eq_some_getLast hB]
  simp [List.dropLast_append_getLast hB]

/-- A block that is not the front of `main`, counted once. -/
theorem countedTimes_insert (hnot : ¬ IsFront main F B) (hm : F.nextValue ≤ m) :
    CountedTimes main c a h 1 F B (B.insertBeforeLast (countInsts m c)) := by
  refine ⟨rfl, [], [m], rfl, ?_, fun hfront => absurd hfront hnot, fun _ => rfl, ?_⟩
  · simpa using hm
  · simp [BasicBlock.insertBeforeLast]

/-- The front of `main`, counted once. -/
theorem countedTimes_front {n : ℕ} (hB : B.insts ≠ []) (hfront : IsFront main F B) (hm : F.nextValue ≤ m) :
    CountedTimes main c a h 1 F B ((B.pushFront (registerCall n a h)).insertBeforeLast (countInsts m c)) := by
  refine ⟨rfl, [n], [m], rfl, ?_, fun _ => rfl, fun hnot => absurd hfront hnot, ?_⟩
  · simpa using hm
  · cases hins : B.insts with
    | nil => exact absurd hins hB
    | cons I Is => simp [BasicBlock.insertBeforeLast, BasicBlock.pushFront, hins]

/-- **Counting a counted block**: the registrations go in front and the counting code goes last. -/
theorem CountedTimes.trans (hB : B.insts ≠ []) (hnext : F.nextValue ≤ F'.nextValue)
    (hfront : IsFront main' F' B' ↔ IsFront main F B) (h₁ : CountedTimes main c a h j F B B')
    (h₂ : CountedTimes main' c a h k F' B' B'') : CountedTimes main c a h (j + k) F B B'' := by
  obtain ⟨calls₁, ns₁, hlen₁, hns₁, hcalls₁, hnone₁, hins₁⟩ := h₁.insts_eq
  obtain ⟨calls₂, ns₂, hlen₂, hns₂, hcalls₂, hnone₂, hins₂⟩ := h₂.insts_eq
  refine ⟨h₂.id_eq.trans h₁.id_eq, calls₂ ++ calls₁, ns₁ ++ ns₂, ?_, ?_, ?_, ?_, ?_⟩
  · rw [List.length_append, hlen₁, hlen₂]
  · intro n hn
    rcases List.mem_append.mp hn with hn | hn
    · exact hns₁ n hn
    · exact hnext.trans (hns₂ n hn)
  · intro hf
    rw [List.length_append, hcalls₁ hf, hcalls₂ (hfront.mpr hf), Nat.add_comm]
  · intro hf
    rw [hnone₁ hf, hnone₂ (mt hfront.mp hf), List.append_nil]
  · rw [List.getLast?_eq_some_getLast hB, Option.toList_some] at hins₁ ⊢
    rw [hins₂, hins₁, List.dropLast_concat, List.getLast?_concat, List.map_append, List.flatMap_append]
    simp only [Option.toList_some, List.append_assoc]

end Blocks

/-- What holds of each block with counting code drawn late enough holds of all of them in order. -/
theorem forall₂_countBlocks_of_le {R : BasicBlock → BasicBlock → Prop} {c : GlobalVariable} {n : ℕ}
    {Bs : List BasicBlock} (h : ∀ B ∈ Bs, ∀ m, n ≤ m → R B (B.insertBeforeLast (countInsts m c))) :
    List.Forall₂ R Bs (countBlocks c n Bs) := by
  induction Bs generalizing n with
  | nil => exact .nil
  | cons B Bs ih =>
    refine .cons (h B List.mem_cons_self n le_rfl) (ih fun B' hB' m hm => ?_)
    exact h B' (List.mem_cons_of_mem B hB') m (by omega)

theorem forall₂_trans {α : Type} {R S T : α → α → Prop} {as bs cs : List α} (hab : List.Forall₂ R as bs)
    (hbc : List.Forall₂ S bs cs) (h : ∀ a ∈ as, ∀ b c, R a b → S b c → T a c) : List.Forall₂ T as cs := by
  induction hab generalizing cs with
  | nil =>
    cases hbc
    exact .nil
  | @cons a b as bs hr _ ih =>
    cases hbc with
    | cons hs hbc =>
      exact .cons (h a List.mem_cons_self b _ hr hs) (ih hbc fun a' ha' => h a' (List.mem_cons_of_mem a ha'))

/-! ### One run, function by function -/

section OneRun

variable {N : Module} {main : Function} {c : GlobalVariable} (hN : N.WellFormed) (hs : SetupCond N main)
include hN hs

/-- A function other than the handler is counted, `main` with its registration. -/
theorem rewritten_of_ne {F : Function} (hF : F ∈ N.functions) (hne : F.name ≠ atexitCallStr) :
    rewritten N main c F =
      countFunction c (if F.id = main.id then registerAtFront (atexitId N) (handlerId N) F else F) := by
  have hid : F.id ≠ handlerId N := mt (id_handler_iff hN hs hF).mp hne
  rw [rewritten]
  split
  · rw [if_neg (by rwa [registerAtFront_id]), countUnlessHandler, if_neg (by rwa [registerAtFront_name])]
  · rw [countUnlessHandler, if_neg hne]

/-- **One run counts a function once.** -/
theorem countedTimes_rewritten {F : Function} (hF : F ∈ N.functions) (hne : F.name ≠ atexitCallStr) :
    F.nextValue ≤ (rewritten N main c F).nextValue ∧
      List.Forall₂ (CountedTimes main c (atexitId N) (handlerId N) 1 F) F.blocks (rewritten N main c F).blocks := by
  have hwf := hN.functions F hF
  rw [rewritten_of_ne hN hs hF hne]
  by_cases hid : F.id = main.id
  · obtain rfl : F = main := eq_of_function_id hN hF (Module.mem_functions_of_getFunction hs.mainFn) hid
    rw [if_pos rfl]
    cases hB : F.blocks with
    | nil =>
      rw [registerAtFront, hB]
      exact ⟨Nat.le_add_right _ _, by rw [countFunction, hB]; exact .nil⟩
    | cons E Bs =>
      have hE := (hwf.blocks E (by simp [hB])).insts_ne_nil
      have hids := hwf.blockIds
      rw [hB, List.map_cons, List.nodup_cons] at hids
      have hnext := nextValue_registerAtFront (atexitId N) (handlerId N) F
      have hblocks : (registerAtFront (atexitId N) (handlerId N) F).blocks =
          E.pushFront (registerCall F.nextValue (atexitId N) (handlerId N)) :: Bs := by
        rw [registerAtFront, hB]
      refine ⟨hnext.trans (Nat.le_add_right _ _), ?_⟩
      rw [countFunction, hblocks]
      refine .cons (countedTimes_front hE ⟨rfl, by rw [hB]; rfl⟩ hnext)
        (forall₂_countBlocks_of_le fun B hBs m hm => countedTimes_insert (fun hfirst => hids.1 ?_) (by omega))
      have heq : E.id = B.id := by simpa [hB] using hfirst.2
      exact heq ▸ List.mem_map_of_mem hBs
  · rw [if_neg hid]
    exact ⟨Nat.le_add_right _ _,
      forall₂_countBlocks_of_le fun B _ m hm => countedTimes_insert (fun hfirst => hid hfirst.1) hm⟩

end OneRun

/-! ### After one run -/

section After

variable {N : Module} {main : Function} {c : GlobalVariable}

theorem getGlobalVariable_again (n : String) :
    (instrumented N main c).getGlobalVariable n = (withReport N main).getGlobalVariable n := by
  rw [Module.getGlobalVariable, Module.getGlobalVariable, Ready.getNamedValue_instrumented]
  cases (withReport N main).getNamedValue n with
  | none => rfl
  | some V => cases V <;> rfl

/-- **The next run finds the same counter.** -/
theorem foundCounter_again (hc : foundCounter N = some c) : foundCounter (instrumented N main c) = some c := by
  have hfound : (instrumented N main c).getGlobalVariable bbCounterStr = some c := by
    rw [getGlobalVariable_again, getGlobalVariable_eq_foundCounter, hc]
  have hname := Module.mem_names_of_getNamedValue (mem_of_getGlobalVariable hfound).2.2.2
  rw [foundCounter, if_pos hname, hfound]

/-- Counting adds nothing that cannot be counted. -/
theorem countable_countFunction {F : Function} (hF : ∀ I ∈ F.insts, I.isMustTail = false ∧ I.opcode ≠ .catchSwitch) :
    ∀ I ∈ (countFunction c F).insts, I.isMustTail = false ∧ I.opcode ≠ .catchSwitch := by
  intro I hI
  obtain ⟨B', hB', hIB⟩ := List.mem_flatMap.mp hI
  obtain ⟨B, hB, m, rfl⟩ := mem_countBlocks hB'
  simp only [BasicBlock.insertBeforeLast, List.mem_append, Option.mem_toList] at hIB
  rcases hIB with (hIB | hIB) | hIB
  · exact hF I (List.mem_flatMap_of_mem hB (List.mem_of_mem_dropLast hIB))
  · refine ⟨(countInsts_plain hIB).2.2.2, ?_⟩
    simp only [countInsts, List.mem_cons, List.not_mem_nil, or_false] at hIB
    rcases hIB with rfl | rfl | rfl <;> intro hop <;> cases hop
  · exact hF I (List.mem_flatMap_of_mem hB (List.mem_of_mem_getLast? hIB))

theorem countable_instrumented (h : ∀ F ∈ N.functions, Countable F) :
    ∀ F ∈ (instrumented N main c).functions, Countable F := by
  intro F' hF'
  rw [instrumented_functions] at hF'
  obtain ⟨F, hF, rfl⟩ := List.mem_map.mp hF'
  have hcount := countable_withReport.mpr h F hF
  rw [countUnlessHandler]
  split
  · exact hcount
  · rename_i hname
    exact fun _ => countable_countFunction (hcount hname)

/-- **The pass may be run again.** -/
theorem instrumentable_again (hN : N.WellFormed) (hs : SetupCond N main)
    (hc : foundCounter N = some c) (hty : c.valueType = .i64) (hcount : ∀ F ∈ N.functions, Countable F) :
    Instrumentable (instrumented N main c) (rewritten N main c main) := by
  have hmain := Module.mem_functions_of_getFunction hs.mainFn
  have hname : main.name ≠ atexitCallStr := by
    rw [Module.name_of_getFunction hs.mainFn]
    decide
  obtain ⟨H, -, -, -, hH, -, hHty, -⟩ := getFunction_handler (c := c) hN hs
  obtain ⟨A, hA, -, hAty⟩ := getFunction_atexit (c := c) hN hs
  obtain ⟨P, hP, -, hPty⟩ := getFunction_printf (c := c) hN hs
  have hfound : (instrumented N main c).getGlobalVariable bbCounterStr = some c := by
    rw [getGlobalVariable_again, getGlobalVariable_eq_foundCounter, hc]
  obtain ⟨-, -, hlocal, hnamed⟩ := mem_of_getGlobalVariable hfound
  refine ⟨?_, hHty ▸ okSymbol_of_getFunction hH, hAty ▸ okSymbol_of_getFunction hA,
    hPty ▸ okSymbol_of_getFunction hP, fun V hV => ?_, countable_instrumented hcount⟩
  · have hlength := (countedTimes_rewritten (c := c) hN hs hmain hname).2.length_eq
    have hdef := ((setupCond_iff hN hs.mainFn).mp hs).1
    rw [Function.isDeclaration, List.isEmpty_eq_false_iff, ← List.length_pos_iff] at hdef ⊢
    omega
  · rw [hnamed, Option.some.injEq] at hV
    exact ⟨c, hV.symm, hlocal, hty⟩

end After

end SnippetsLlvm.CountBB
