import SnippetsLlvm.CountBB.AnotherRun

/-!
# Running `count-bb` again

The pass may be run on a module it has been run on before, as a command line that names it twice does.  The second
run finds the names of the first one taken: it creates another variable, which no counting code uses, appends another
report to the same handler, registers that handler once more and increments the first variable once more in every
block.

* `runTimes` — the pass run `k` times;
* `Layered` — what `k` runs leave of a module;
* `Layered.run` — one more run adds one more layer;
* `runTimes_layered` — **a module that can be instrumented once can be so any number of times**, and the result is
  well-formed and layered.
-/

namespace SnippetsLlvm.CountBB

open SnippetsLlvm.Ir SnippetsLlvm.Library

/-! ### The statement -/

/-- The pass run `k` times. -/
def runTimes : ℕ → Module → Except Failure Module
  | 0, M => .ok M
  | k + 1, M => (runTimes k M).bind runOnModule

/-- The block, under whatever name, reports the variable `C` with the function `p` and a variable of `N` that holds
the format. -/
def IsReport (N : Module) (p : ℕ) (C : GlobalVariable) (B : BasicBlock) : Prop :=
  ∃ b name n, ∃ G ∈ N.globals, G.initializer = some (.dataArray G.valueType (cString formatStr)) ∧
    B = reportBlock b name n C p (elementAt G)

/-- The names of the blocks that have one are distinct. -/
def NamesDistinct (Bs : List BasicBlock) : Prop := ((Bs.map BasicBlock.name).filter (· ≠ "")).Nodup

/-- **`N` is `M` after `k` runs**: every function but the handler is counted `k` times on the one variable `c`, and
`main` registers the handler `k` times; the handler has `k` reports more, of which all but the first are of variables
that nothing counts on, and the names of its blocks are as distinct as they were; other new functions are
declarations. -/
structure Layered (M : Module) (main : Function) (c : GlobalVariable) (k : ℕ) (N : Module) : Prop where
  wf : N.WellFormed
  found : foundCounter N = some c
  named : 0 < k → N.getGlobalVariable bbCounterStr = some c
  again : ∃ main', N.getFunction "main" = some main' ∧ Instrumentable N main' ∧ main'.id = main.id ∧
    main'.blocks.head?.map BasicBlock.id = main.blocks.head?.map BasicBlock.id ∧ printfId N main' = printfId M main
  handlerId_eq : handlerId N = handlerId M
  atexitId_eq : atexitId N = atexitId M
  counted : ∀ F ∈ M.functions, F.name ≠ atexitCallStr → ∃ F' ∈ N.functions, F'.id = F.id ∧ F'.name = F.name ∧
    F.nextValue ≤ F'.nextValue ∧
    List.Forall₂ (CountedTimes main c (atexitId M) (handlerId M) k F) F.blocks F'.blocks
  reports : ∃ Cs Rs, Cs.length = k ∧ List.Forall₂ (IsReport N (printfId M main)) Cs Rs ∧
    (Cs ++ [counter N]).head? = some (counter M) ∧ (∀ C ∈ Cs.tail, C.id ≠ c.id) ∧
    bodyOf N atexitCallStr = bodyOf M atexitCallStr ++ Rs
  blockNames : NamesDistinct (bodyOf M atexitCallStr) → NamesDistinct (bodyOf N atexitCallStr)
  others : ∀ F' ∈ N.functions, (∃ F ∈ M.functions, F.id = F'.id) ∨ F'.id = handlerId M ∨ F'.blocks = []
  globals : ∀ G ∈ M.globals, G ∈ N.globals

/-! ### Any number of runs -/

theorem handlerId_of_getFunction {N : Module} {H : Function} (hH : N.getFunction atexitCallStr = some H) :
    handlerId N = H.id := by
  rw [handlerId, symbolId, getNamedValue_withCounter (by decide), Module.getFunction_eq_some.mp hH]
  rfl

theorem atexitId_of_getFunction {N : Module} {A : Function} (hA : N.getFunction "atexit" = some A) :
    atexitId N = A.id := by
  rw [atexitId, symbolId, withHandler, getNamedValue_withSymbol_ne (by decide),
    getNamedValue_withCounter (by decide), Module.getFunction_eq_some.mp hA]
  rfl

theorem printfId_of_getFunction {N : Module} {main P : Function} (hP : N.getFunction "printf" = some P) :
    printfId N main = P.id := by
  rw [printfId, symbolId, withRegister, Module.getNamedValue_modifyFunction (registerAtFront_name _ _), withAtexit,
    getNamedValue_withSymbol_ne (by decide), withHandler, getNamedValue_withSymbol_ne (by decide),
    getNamedValue_withCounter (by decide), Module.getFunction_eq_some.mp hP]
  show (if P.id = main.id then registerAtFront (atexitId N) (handlerId N) P else P).id = P.id
  split
  · rw [registerAtFront_id]
  · rfl

theorem globals_subset_instrumented {N : Module} {main : Function} {c : GlobalVariable} :
    N.globals ⊆ (instrumented N main c).globals := by
  intro G hG
  obtain ⟨fmt, -, hglobals⟩ := Ready.instrumented_globals N main c
  rw [hglobals]
  exact List.mem_append_left _ hG

theorem ids_of_countedTimes {main F : Function} {c : GlobalVariable} {a h k : ℕ} {Bs Bs' : List BasicBlock}
    (hcount : List.Forall₂ (CountedTimes main c a h k F) Bs Bs') :
    Bs'.map BasicBlock.id = Bs.map BasicBlock.id := by
  induction hcount with
  | nil => rfl
  | cons hB _ ih => rw [List.map_cons, List.map_cons, hB.id_eq, ih]

section Runs

variable {M N : Module} {main : Function} {c : GlobalVariable} {k : ℕ}

/-- Before any run. -/
theorem layered_zero (hM : M.WellFormed) (hmain : M.getFunction "main" = some main) (h : Instrumentable M main)
    (hc : foundCounter M = some c) : Layered M main c 0 M where
  wf := hM
  found := hc
  named hpos := absurd hpos (Nat.lt_irrefl 0)
  again := ⟨main, hmain, h, rfl, rfl, rfl⟩
  handlerId_eq := rfl
  atexitId_eq := rfl
  counted F hF _ := by
    refine ⟨F, hF, rfl, rfl, le_rfl, List.forall₂_same.mpr fun B hB => countedTimes_zero ?_⟩
    exact ((hM.functions F hF).blocks B hB).insts_ne_nil
  reports := ⟨[], [], rfl, .nil, rfl, by simp, (List.append_nil _).symm⟩
  blockNames hnames := hnames
  others F hF := .inl ⟨F, hF, rfl⟩
  globals _ hG := hG

section Again

variable {main' : Function} (hL : Layered M main c k N) (hs : SetupCond N main')
include hL

include hs in
/-- Each function is counted once more. -/
theorem Layered.counted_again (hM : M.WellFormed) (hid : main'.id = main.id)
    (hhead : main'.blocks.head?.map BasicBlock.id = main.blocks.head?.map BasicBlock.id) {F : Function}
    (hF : F ∈ M.functions) (hne : F.name ≠ atexitCallStr) :
    ∃ F' ∈ (instrumented N main' c).functions, F'.id = F.id ∧ F'.name = F.name ∧ F.nextValue ≤ F'.nextValue ∧
      List.Forall₂ (CountedTimes main c (atexitId M) (handlerId M) (k + 1) F) F.blocks F'.blocks := by
  obtain ⟨F', hF', hFid, hFname, hnext, hblocks⟩ := hL.counted F hF hne
  obtain ⟨hnext', hblocks'⟩ := countedTimes_rewritten (c := c) hL.wf hs hF' (hFname ▸ hne)
  refine ⟨rewritten N main' c F', mem_instrumented_of_mem hF', (rewritten_id F').trans hFid,
    (rewritten_name F').trans hFname, hnext.trans hnext', forall₂_trans hblocks hblocks' ?_⟩
  intro B hB B' B'' h₁ h₂
  rw [hL.handlerId_eq, hL.atexitId_eq] at h₂
  refine h₁.trans ((hM.functions F hF).blocks B hB).insts_ne_nil hnext ?_ h₂
  rw [IsFront, IsFront, hFid, hid, hhead, h₁.id_eq]

include hs in
/-- The handler gets one report more, of a variable that is new. -/
theorem Layered.reports_again (hp : printfId N main' = printfId M main) : ∃ Cs Rs, Cs.length = k + 1 ∧
    List.Forall₂ (IsReport (instrumented N main' c) (printfId M main)) Cs Rs ∧
    (Cs ++ [counter (instrumented N main' c)]).head? = some (counter M) ∧ (∀ C ∈ Cs.tail, C.id ≠ c.id) ∧
    bodyOf (instrumented N main' c) atexitCallStr = bodyOf M atexitCallStr ++ Rs := by
  obtain ⟨Cs, Rs, hlen, hRs, hfirst, htail, hbody⟩ := hL.reports
  obtain ⟨H, b, name, n, hH, -, -, -, hblocks⟩ := getFunction_handler (c := c) hL.wf hs
  obtain ⟨G, hG, -, hinit, hfmt⟩ := exists_format N main' c
  have hold : List.Forall₂ (IsReport (instrumented N main' c) (printfId M main)) Cs Rs :=
    hRs.imp fun C B ⟨b, name, n, G, hG, hB⟩ => ⟨b, name, n, G, globals_subset_instrumented hG, hB⟩
  refine ⟨Cs ++ [counter N], Rs ++ [reportBlock b name n (counter N) (printfId N main') (format N main')],
    by rw [List.length_append, hlen]; rfl,
    List.rel_append hold (.cons ⟨b, name, n, G, hG, hinit, by rw [hp, hfmt]⟩ .nil), ?_, ?_, ?_⟩
  · rw [List.head?_append, hfirst]
    rfl
  · intro C hC
    cases Cs with
    | nil => cases hC
    | cons C₀ Cs =>
      rcases List.mem_append.mp hC with hC | hC
      · exact htail C hC
      · -- the variable of this run is newer than the one that is counted on
        rw [List.mem_singleton.mp hC]
        have hlt := hL.wf.global_lt (mem_of_getGlobalVariable (hL.named (by rw [← hlen]; simp))).1
        exact (Nat.ne_of_lt hlt).symm
  · rw [bodyOf, hH, ← List.append_assoc, ← hbody]
    exact hblocks

include hs in
/-- Its name is not one of those the handler had. -/
theorem Layered.blockNames_again (hnames : NamesDistinct (bodyOf M atexitCallStr)) :
    NamesDistinct (bodyOf (instrumented N main' c) atexitCallStr) := by
  obtain ⟨H, b, name, n, hH, -, -, hfree, hblocks⟩ := getFunction_handler (c := c) hL.wf hs
  have hold := hL.blockNames hnames
  rw [NamesDistinct] at hold
  rw [NamesDistinct, bodyOf, hH, Option.map_some, Option.getD_some, hblocks, List.map_append, List.filter_append,
    List.nodup_append]
  refine ⟨hold, ?_, fun m hm m' hm' heq => hfree ?_⟩
  · exact (List.nodup_singleton name).filter _
  · have hname : m' = name := List.mem_singleton.mp (List.mem_of_mem_filter hm')
    rw [← hname, ← heq]
    exact List.mem_of_mem_filter hm

/-- No other function gets a body. -/
theorem Layered.others_again (hN' : (instrumented N main' c).WellFormed) {F'' : Function}
    (hF'' : F'' ∈ (instrumented N main' c).functions) :
    (∃ F ∈ M.functions, F.id = F''.id) ∨ F''.id = handlerId M ∨ F''.blocks = [] := by
  rw [← hL.handlerId_eq]
  rcases mem_instrumented_cases hF'' with ⟨F', hF', hFid⟩ | hh | hB
  · rw [← hFid]
    rcases hL.others F' hF' with hold | hold | hold
    · exact .inl hold
    · rw [← hL.handlerId_eq] at hold
      exact .inr (.inl hold)
    · by_cases hh : F'.id = handlerId N
      · exact .inr (.inl hh)
      · rw [eq_of_function_id hN' hF'' (mem_instrumented_of_mem hF') (hFid.symm.trans (rewritten_id F').symm)]
        exact .inr (.inr (rewritten_nil hold hh))
  · exact .inr (.inl hh)
  · exact .inr (.inr hB)

end Again

/-- **One more run adds one more layer.** -/
theorem Layered.run (hM : M.WellFormed) (hty : c.valueType = .i64) (hL : Layered M main c k N) :
    ∃ N', runOnModule N = .ok N' ∧ Layered M main c (k + 1) N' := by
  obtain ⟨main', hmain', hinst, hid, hhead, hp⟩ := hL.again
  have hs := (setupCond_iff hL.wf hmain').mpr ⟨hinst.defined, hinst.handler, hinst.atexit, hinst.printf⟩
  have hc : (withReport N main').getGlobalVariable bbCounterStr = some c := by
    rw [getGlobalVariable_eq_foundCounter, hL.found]
  have hN' := (instrumented_wellFormed_iff hL.wf hs hc hty).mpr hinst.countable
  have hname : main'.name ≠ atexitCallStr := by
    rw [Module.name_of_getFunction hmain']
    decide
  have hids := ids_of_countedTimes
    (countedTimes_rewritten (c := c) hL.wf hs (Module.mem_functions_of_getFunction hmain') hname).2
  obtain ⟨H, -, -, -, hH, hHid, -⟩ := getFunction_handler (c := c) hL.wf hs
  obtain ⟨A, hA, hAid, -⟩ := getFunction_atexit (c := c) hL.wf hs
  obtain ⟨P, hP, hPid, -⟩ := getFunction_printf (c := c) hL.wf hs
  exact ⟨_, runOnModule_of_found hL.wf hs hc hty,
    { wf := hN'
      found := foundCounter_again hL.found
      named := fun _ => by rw [getGlobalVariable_again, hc]
      again := ⟨_, getFunction_main_again hL.wf hs, instrumentable_again hL.wf hs hL.found hty hinst.countable,
        (rewritten_id main').trans hid, by rw [← List.head?_map, hids, List.head?_map, hhead],
        (printfId_of_getFunction hP).trans (hPid.trans hp)⟩
      handlerId_eq := (handlerId_of_getFunction hH).trans (hHid.trans hL.handlerId_eq)
      atexitId_eq := (atexitId_of_getFunction hA).trans (hAid.trans hL.atexitId_eq)
      counted := fun F hF hne => hL.counted_again hs hM hid hhead hF hne
      reports := hL.reports_again hs hp
      blockNames := hL.blockNames_again hs
      others := fun F'' hF'' => hL.others_again hN' hF''
      globals := fun G hG => globals_subset_instrumented (hL.globals G hG) }⟩

/-- On a module the pass can be run on once, any number of runs succeed, each adding one layer. -/
theorem exists_layered (hM : M.WellFormed) (hmain : M.getFunction "main" = some main) (h : Instrumentable M main)
    (hc : foundCounter M = some c) (k : ℕ) : ∃ N, runTimes k M = .ok N ∧ Layered M main c k N := by
  obtain ⟨c', hc', hty⟩ := (@counterFound_iff M main).mpr h.counter
  rw [getGlobalVariable_eq_foundCounter, hc, Option.some.injEq] at hc'
  subst hc'
  induction k with
  | zero => exact ⟨M, rfl, layered_zero hM hmain h hc⟩
  | succ k ih =>
    obtain ⟨N, hN, hL⟩ := ih
    obtain ⟨N', hN', hL'⟩ := hL.run hM hty
    exact ⟨N', by rw [runTimes, hN]; exact hN', hL'⟩

theorem layered_of_runTimes (hM : M.WellFormed) (hmain : M.getFunction "main" = some main)
    (h : Instrumentable M main) (hc : foundCounter M = some c) (hN : runTimes k M = .ok N) :
    Layered M main c k N := by
  obtain ⟨N', hN', hL⟩ := exists_layered hM hmain h hc k
  rw [hN, Except.ok.injEq] at hN'
  exact hN' ▸ hL

theorem exists_foundCounter (main : Function) (h : CounterFound M) : ∃ c, foundCounter M = some c := by
  obtain ⟨c, hc, -⟩ := (@counterFound_iff M main).mpr h
  exact ⟨c, by rw [← getGlobalVariable_eq_foundCounter M main, hc]⟩

/-- A run that leaves a well-formed module shows that the module could be instrumented. -/
theorem instrumentable_of_run (hM : M.WellFormed) (hmain : M.getFunction "main" = some main)
    (hrun : runOnModule M = .ok N) (hN : N.WellFormed) : Instrumentable M main := by
  obtain ⟨main', c, hs, hc, hty, rfl⟩ := runOnModule_inv_found hM hrun
  obtain rfl : main' = main := Option.some.inj (hs.mainFn.symm.trans hmain)
  obtain ⟨hdef, hhandler, hatexit, hprintf⟩ := (setupCond_iff hM hmain).mp hs
  exact ⟨hdef, hhandler, hatexit, hprintf, counterFound_iff.mp ⟨c, hc, hty⟩,
    (instrumented_wellFormed_iff hM hs hc hty).mp hN⟩

end Runs

/-- **The pass can be run any number of times exactly when it can be run once**, and `k` runs leave `k` layers. -/
theorem runTimes_layered {M : Module} {main : Function} (hM : M.WellFormed)
    (hmain : M.getFunction "main" = some main) :
    ((∀ k, ∃ N, runTimes k M = .ok N ∧ N.WellFormed) ↔ Instrumentable M main) ∧
      ∀ k N, Instrumentable M main → runTimes k M = .ok N →
        ∃ c, foundCounter M = some c ∧ Layered M main c k N := by
  refine ⟨⟨fun hall => ?_, fun h k => ?_⟩, fun k N h hN => ?_⟩
  · obtain ⟨N, hN, hwf⟩ := hall 1
    exact instrumentable_of_run hM hmain hN hwf
  · obtain ⟨c, hc⟩ := exists_foundCounter main h.counter
    obtain ⟨N, hN, hL⟩ := exists_layered hM hmain h hc k
    exact ⟨N, hN, hL.wf⟩
  · obtain ⟨c, hc⟩ := exists_foundCounter main h.counter
    exact ⟨c, hc, layered_of_runTimes hM hmain h hc hN⟩

/-! ### A program counted twice -/

theorem instrumentable_returnModule : Instrumentable returnModule returnMain where
  defined := rfl
  handler := okSymbol_of_free (by decide)
  atexit := okSymbol_of_free (by decide)
  printf := okSymbol_of_free (by decide)
  counter := counterFound_of_free (by decide)
  countable F hF _ := by
    rw [List.mem_singleton.mp hF]
    decide

theorem runTimes_layered_return : ∃ N, runTimes 2 returnModule = .ok N ∧
    Layered returnModule returnMain (counter returnModule) 2 N := by
  obtain ⟨hiff, hlayers⟩ := runTimes_layered (M := returnModule) (Module.Verified.wellFormed (by decide)) rfl
  obtain ⟨N, hN, -⟩ := hiff.mpr instrumentable_returnModule 2
  obtain ⟨c, hc, hL⟩ := hlayers 2 N instrumentable_returnModule hN
  rw [foundCounter, if_neg (by decide), Option.some.injEq] at hc
  exact ⟨N, hN, hc ▸ hL⟩

end SnippetsLlvm.CountBB
