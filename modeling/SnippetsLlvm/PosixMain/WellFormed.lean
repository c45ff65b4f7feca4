import SnippetsLlvm.PosixMain.Result
import SnippetsLlvm.Ir.Verifier

/-!
# When `posix-main` leaves a well-formed module

The blocks change the function they belong to.  The new function has another type, and neither personality
nor collector strategy nor debug subprogram nor a calling convention of its own, so what the blocks rely on
decides, and whether the attributes fit:

* `Movable` — no remaining use of the old `main`, returns of an `int`, no exception-handling pad or `resume`, no
  `musttail` call, no `va_start`, no call for a collector, the default calling convention, no debug location under a
  subprogram, attributes that fit a function returning `int`;
* `Posixized` — the pass completes, the result is well-formed and the new `main` has the properties its body
  relies on;
* `posixized_iff` — **the one exactly when the other**.
-/

namespace SnippetsLlvm.PosixMain

open SnippetsLlvm.Ir SnippetsLlvm.Library

/-! ### The statement -/

/-- A direct call of an intrinsic that is only allowed in a function with a collector strategy. -/
def CallsGC (M : Module) (I : Instruction) : Prop :=
  ∃ g ty, I.calledOperand = some (.const (.global g .function ty)) ∧
    ∃ G ∈ M.functions, G.id = g ∧ G.intrinsic.any Intrinsic.needsGC = true

/-- The function-level properties a body relies on are the same in `main` and in the function `N` of `M'`. -/
structure KeepsProperties (M' : Module) (main N : Function) : Prop where
  personality : (∃ I ∈ N.insts, I.needsPersonality = true) → N.personality = main.personality
  gc : (∃ I ∈ N.insts, CallsGC M' I) → N.gc = main.gc
  callingConv : N.callingConv = main.callingConv
  subprogram : (∃ I ∈ N.insts, I.debugLoc = true) → N.subprogram = main.subprogram

/-- The pass completes with a well-formed module whose `main` has what its body relies on. -/
def Posixized (M : Module) (identifier : String) (main : Function) : Prop :=
  ∃ M' N, posixizeMain M identifier = .ok ⟨[], true, M'⟩ ∧ M'.WellFormed ∧
    M'.getFunction "main" = some N ∧ KeepsProperties M' main N

/-- What the body of `main` must not rely on, and the module not refer to. -/
structure Movable (M : Module) (main : Function) : Prop where
  unused : Unused M main
  rets : ∀ I ∈ main.insts, I.opcode = .ret → main.type.ret = .i32
  noPads : ∀ I ∈ main.insts, I.needsPersonality = false
  noMustTail : ∀ I ∈ main.insts, I.isMustTail = false
  noVaStart : ∀ I ∈ main.insts, ∀ g ty, I.calledOperand = some (.const (.global g .function ty)) →
    ∀ G ∈ M.functions, G.id = g → G.intrinsic ≠ some .vaStart
  noGC : ∀ I ∈ main.insts, ¬ CallsGC M I
  attributes : main.attributes.Fits .i32 false
  callingConv : main.callingConv = 0
  subprogram : (∃ I ∈ main.insts, I.debugLoc = true) → main.subprogram = none

/-! ### The new symbol table -/

section Table

variable {M : Module} {main : Function} (hM : M.WellFormed) (hmain : M.getFunction "main" = some main)

theorem posixizeMain_eq (hmain : M.getFunction "main" = some main) (hparams : main.type.params = [])
    (identifier : String) : posixizeMain M identifier = replaceMain M main := by
  simp only [posixizeMain, hmain, hparams]
  rfl

include hM hmain

theorem mem_replaced {V : GlobalValue} (hV : V ∈ M.globalValues) (hid : V.id ≠ main.id) :
    V ∈ (replaced M main).globalValues := by
  rcases List.mem_cons.mp ((perm_others hM hmain).mem_iff.mp hV) with rfl | hV
  · exact absurd rfl hid
  · exact (replaced_perm_others M main).mem_iff.mpr (List.mem_cons_of_mem _ hV)

theorem mem_of_mem_others {V : GlobalValue} (hV : V ∈ others M main) : V ∈ M.globalValues :=
  (perm_others hM hmain).mem_iff.mpr (List.mem_cons_of_mem _ hV)

/-- The name `main` finds the new function. -/
theorem getFunction_replaced : (replaced M main).getFunction "main" = some (newMain M main) := by
  have hnames : ((replaced M main).names.filter (· ≠ "")).Nodup :=
    ((names_perm hM hmain).filter _).nodup_iff.mpr hM.names
  have hmem : GlobalValue.function (newMain M main) ∈ (replaced M main).globalValues :=
    (replaced_perm_others M main).mem_iff.mpr List.mem_cons_self
  have hne : (GlobalValue.function (newMain M main)).name ≠ "" := by
    show ("main" : String) ≠ ""
    decide
  exact Module.getFunction_eq_some.mpr (Module.getNamedValue_of_mem hnames hmem hne)

/-- A global that is used and is not the old `main` is still there. -/
theorem exists_replaced {g : ℕ} (h : ∃ V ∈ M.globalValues, V.id = g) (hne : g ≠ main.id) :
    ∃ V ∈ (replaced M main).globalValues, V.id = g := by
  obtain ⟨V, hV, rfl⟩ := h
  exact ⟨V, mem_replaced hM hmain hV hne, rfl⟩

/-- The uses of a constant that does not use `main` are still there. -/
theorem uses_replaced {c : Constant} (hc : c.mentions main.id = false)
    (h : ∀ g, c.mentions g = true → ∃ V ∈ M.globalValues, V.id = g) :
    ∀ g, c.mentions g = true → ∃ V ∈ (replaced M main).globalValues, V.id = g := by
  intro g hg
  refine exists_replaced hM hmain (h g hg) ?_
  rintro rfl
  rw [hc] at hg
  cases hg

theorem globalsIn_replaced {v : Value} (hv : v.mentions main.id = false) (h : v.GlobalsIn M) :
    v.GlobalsIn (replaced M main) := by
  constructor
  · intro g k ty hconst
    obtain ⟨V, hV, href⟩ := h.1 g k ty hconst
    refine ⟨V, mem_replaced hM hmain hV ?_, href⟩
    intro hid
    rw [hconst, ← href, ← hid] at hv
    simp [Value.mentions, GlobalValue.ref, Constant.mentions] at hv
  · intro g hg
    refine exists_replaced hM hmain (h.2 g hg) ?_
    rintro rfl
    rw [hv] at hg
    cases hg

omit hM hmain in
theorem mem_functions_replaced {F : Function} :
    F ∈ (replaced M main).functions ↔ (F ∈ M.functions ∧ F.id ≠ main.id) ∨ F = newMain M main := by
  simp [replaced]

/-! ### The functions -/

/-- An intrinsic does not have the name `main`. -/
theorem ne_main_of_intrinsic {G : Function} (hG : G ∈ M.functions) (h : G.intrinsic.isSome = true) :
    G.id ≠ main.id := by
  intro hid
  rw [eq_main hM hmain hG hid] at h
  have hpre := hM.intrinsics main (main_mem hmain) h
  rw [main_name hmain] at hpre
  revert hpre
  decide

/-- The new module has the intrinsics of the old one. -/
theorem intrinsic_replaced {G : Function} (h : G.intrinsic.isSome = true) :
    G ∈ (replaced M main).functions ↔ G ∈ M.functions := by
  rw [mem_functions_replaced]
  constructor
  · rintro (⟨hG, -⟩ | rfl)
    · exact hG
    · cases h
  · intro hG
    exact .inl ⟨hG, ne_main_of_intrinsic hM hmain hG h⟩

theorem callsGC_replaced {I : Instruction} : CallsGC (replaced M main) I ↔ CallsGC M I := by
  constructor
  · rintro ⟨g, ty, hcallee, G, hG, hid, hgc⟩
    exact ⟨g, ty, hcallee, G, (intrinsic_replaced hM hmain (Option.isSome_of_any hgc)).mp hG, hid, hgc⟩
  · rintro ⟨g, ty, hcallee, G, hG, hid, hgc⟩
    exact ⟨g, ty, hcallee, G, (intrinsic_replaced hM hmain (Option.isSome_of_any hgc)).mpr hG, hid, hgc⟩

omit hM hmain in
/-- A function without parameters has no argument among its operands. -/
theorem refersInto_newMain (hparams : main.type.params = []) {v : Value} (h : v.RefersInto main) :
    v.RefersInto (newMain M main) := by
  cases v with
  | arg i ty =>
    have hnone : ([] : List Ty)[i]? = some ty := hparams ▸ h
    cases hnone
  | _ => exact h

/-- **The new `main` is well-formed** when its body can be moved. -/
theorem newMain_wellFormed (hparams : main.type.params = []) (h : Movable M main) :
    (newMain M main).WellFormed (replaced M main) := by
  have hmem := main_mem hmain
  have hwf := hM.functions main hmem
  have hsame : (newMain M main).blocks = main.blocks := rfl
  refine
    { blocks := hwf.blocks
      blockIds := hwf.blockIds
      blockBound := hwf.blockBound
      valueIds := hwf.valueIds
      valueBound := hwf.valueBound
      successors := hwf.successors
      entryPreds := hwf.entryPreds
      entryPlain := hwf.entryPlain
      localRefs := fun I hI v hv => refersInto_newMain hparams (hwf.localRefs I hI v hv)
      globalRefs := ?_
      defined := ?_
      phis := ?_
      typed := hwf.typed
      calls := hwf.calls
      rets := ?_
      pads := ?_
      unwindDests := hwf.unwindDests
      mustTailProto := ?_
      vaStart := ?_
      gcCalls := ?_
      attributes := h.attributes
      personalityRef := fun c hc => nomatch hc }
  · intro I hI v hv
    have hno := List.any_eq_false.mp (h.unused.insts main hmem I hI) v hv
    exact globalsIn_replaced hM hmain (by simpa using hno) (hwf.globalRefs I hI v hv)
  · intro B hB pre I post hsplit hphi d op ty hd
    exact (Function.definedBefore_congr hsame).mpr (hwf.defined B hB pre I post hsplit hphi d op ty hd)
  · intro B hB I hI inc hinc
    obtain ⟨hlen, hpreds, hvals⟩ := hwf.phis B hB I hI inc hinc
    refine ⟨hlen, hpreds, fun v b hvb d op ty hv p hp => ?_⟩
    exact (Function.definedOn_congr hsame).mpr
      (hvals v b hvb d op ty hv p ((Function.pathTo_congr hsame).mp hp))
  · intro I hI hret
    have hty := h.rets I hI hret
    rcases hwf.rets I hI hret with ⟨hnil, hvoid⟩ | ⟨v, hv, hvty⟩
    · rw [hty] at hvoid
      cases hvoid
    · exact .inr ⟨v, hv, hvty.trans hty⟩
  · rintro ⟨I, hI, hpad⟩
    rw [h.noPads I hI] at hpad
    cases hpad
  · intro I hI ft hcall
    have hno := h.noMustTail I hI
    rw [Instruction.isMustTail, hcall] at hno
    cases hno
  · intro I hI g ty hcallee G hG hid hva
    rcases mem_functions_replaced.mp hG with ⟨hG, -⟩ | rfl
    · exact absurd hva (h.noVaStart I hI g ty hcallee G hG hid)
    · cases hva
  · intro I hI g ty hcallee G hG hid hgc
    exact absurd ((callsGC_replaced hM hmain).mp ⟨g, ty, hcallee, G, hG, hid, hgc⟩) (h.noGC I hI)

/-- The other functions stay well-formed. -/
theorem other_wellFormed (hunused : Unused M main) {F : Function} (hF : F ∈ M.functions)
    (hne : F.id ≠ main.id) : F.WellFormed (replaced M main) := by
  have hwf := hM.functions F hF
  refine hwf.ofModule (fun I hI v hv => ?_)
    (fun G hG hintr => ⟨G, (intrinsic_replaced hM hmain hintr).mp hG, rfl, rfl⟩) fun c hc => ?_
  · have hno := List.any_eq_false.mp (hunused.insts F hF I hI) v hv
    exact globalsIn_replaced hM hmain (by simpa using hno) (hwf.globalRefs I hI v hv)
  · exact uses_replaced hM hmain (hunused.personalities F hF hne c hc) (hwf.personalityRef c hc)

/-- **The module with the new `main` is well-formed** when the body can be moved. -/
theorem replaced_wellFormed (hparams : main.type.params = []) (h : Movable M main) :
    (replaced M main).WellFormed := by
  have hothers : ∀ V ∈ others M main, V.id < M.nextGlobal := fun V hV =>
    hM.idBound V (mem_of_mem_others hM hmain hV)
  refine
    { ids := ?_
      idBound := ?_
      names := ((names_perm hM hmain).filter _).nodup_iff.mpr hM.names
      functions := ?_
      initializers := ?_
      aliasees := ?_
      resolvers := ?_
      intrinsics := ?_ }
  · refine ((replaced_perm_others M main).map GlobalValue.id).nodup_iff.mpr ?_
    have hold := ((perm_others hM hmain).map GlobalValue.id).nodup_iff.mp hM.ids
    rw [List.map_cons, List.nodup_cons] at hold ⊢
    refine ⟨fun hmem => ?_, hold.2⟩
    obtain ⟨V, hV, hid⟩ := List.mem_map.mp hmem
    exact absurd hid (Nat.ne_of_lt (hothers V hV))
  · intro V hV
    show V.id < M.nextGlobal + 1
    rcases List.mem_cons.mp ((replaced_perm_others M main).mem_iff.mp hV) with rfl | hV
    · exact Nat.lt_succ_self _
    · exact Nat.lt_succ_of_lt (hothers V hV)
  · intro F hF
    rcases mem_functions_replaced.mp hF with ⟨hF, hne⟩ | rfl
    · exact other_wellFormed hM hmain h.unused hF hne
    · exact newMain_wellFormed hM hmain hparams h
  · intro G hG c hc
    obtain ⟨hty, huses⟩ := hM.initializers G hG c hc
    exact ⟨hty, uses_replaced hM hmain (h.unused.initializers G hG c hc) huses⟩
  · intro A hA
    exact uses_replaced hM hmain (h.unused.aliasees A hA) (hM.aliasees A hA)
  · intro I hI
    exact uses_replaced hM hmain (h.unused.resolvers I hI) (hM.resolvers I hI)
  · intro F hF hintr
    rcases mem_functions_replaced.mp hF with ⟨hF, -⟩ | rfl
    · exact hM.intrinsics F hF hintr
    · cases hintr

/-! ### The condition is exact -/

/-- When the pass completes, nothing used the old `main` and the result is the module with the new one. -/
theorem posixizeMain_inv (hparams : main.type.params = []) {identifier : String} {M' : Module}
    (h : posixizeMain M identifier = .ok ⟨[], true, M'⟩) : Unused M main ∧ M' = replaced M main := by
  rw [posixizeMain_eq hmain hparams, replaceMain_eq hM hmain hparams] at h
  split at h
  · cases h
  · rename_i huses
    refine ⟨(hasUses_replaced hM hmain).mp (by simpa using huses), ?_⟩
    rw [Except.ok.injEq, Outcome.mk.injEq] at h
    exact h.2.2.symm

theorem Posixized.movable (hparams : main.type.params = []) {identifier : String}
    (h : Posixized M identifier main) : Movable M main := by
  obtain ⟨M', N, hrun, hwf, hN, hkeep⟩ := h
  obtain ⟨hunused, rfl⟩ := posixizeMain_inv hM hmain hparams hrun
  rw [getFunction_replaced hM hmain, Option.some.injEq] at hN
  subst hN
  have hold := hM.functions main (main_mem hmain)
  have hnew := hwf.functions (newMain M main) (mem_functions_replaced.mpr (.inr rfl))
  refine ⟨hunused, fun I hI hret => ?_, fun I hI => ?_, fun I hI => ?_,
    fun I hI g ty hcallee G hG hid hva => ?_, fun I hI hgc => ?_, hnew.attributes, hkeep.callingConv.symm,
    fun hloc => (hkeep.subprogram hloc).symm⟩
  · rcases hnew.rets I hI hret with ⟨-, hvoid⟩ | ⟨v, hv, hvty⟩
    · cases hvoid
    · rcases hold.rets I hI hret with ⟨hnil, -⟩ | ⟨w, hw, hwty⟩
      · rw [hnil] at hv
        cases hv
      · rw [hv, List.cons.injEq] at hw
        rw [← hwty, ← hw.1]
        exact hvty
  · by_contra hpad
    have := hnew.pads ⟨I, hI, by simpa using hpad⟩
    cases this
  · by_contra hmust
    rw [Bool.not_eq_false, Instruction.isMustTail] at hmust
    cases hop : I.opcode with
    | call ft mustTail =>
      rw [hop] at hmust
      have hop' : I.opcode = .call ft true := by rw [hop]; exact congrArg _ hmust
      have h₁ := (hold.mustTailProto I hI ft hop').2.length_eq
      have h₂ := (hnew.mustTailProto I hI ft hop').2.length_eq
      rw [hparams] at h₁
      rw [h₁] at h₂
      cases h₂
    | _ => rw [hop] at hmust; cases hmust
  · have hG' := (intrinsic_replaced hM hmain (by rw [hva]; rfl)).mpr hG
    have hvar := hnew.vaStart I hI g ty hcallee G hG' hid hva
    cases hvar
  · obtain ⟨g, ty, hcallee, G, hG, hid, hneeds⟩ := (callsGC_replaced hM hmain).mpr hgc
    have hsome := hnew.gcCalls I hI g ty hcallee G hG hid hneeds
    cases hsome

omit hM hmain in
/-- **`posix-main` completes with a well-formed module whose `main` keeps what its body relies on, exactly
when the body can be moved.** -/
theorem posixized_iff {identifier : String} (hM : M.WellFormed)
    (hmain : M.getFunction "main" = some main) (hparams : main.type.params = []) :
    Posixized M identifier main ↔ Movable M main := by
  constructor
  · exact Posixized.movable hM hmain hparams
  · intro h
    have huses := (hasUses_replaced hM hmain).mpr h.unused
    refine ⟨replaced M main, newMain M main, ?_, replaced_wellFormed hM hmain hparams h,
      getFunction_replaced hM hmain, ?_, ?_, h.callingConv.symm, fun hloc => (h.subprogram hloc).symm⟩
    · rw [posixizeMain_eq hmain hparams, replaceMain_eq hM hmain hparams, huses]
      rfl
    · rintro ⟨I, hI, hpad⟩
      rw [h.noPads I hI] at hpad
      cases hpad
    · rintro ⟨I, hI, hgc⟩
      exact absurd ((callsGC_replaced hM hmain).mp hgc) (h.noGC I hI)

end Table

/-! ### A `main` that can be moved and one that cannot -/

/-- `pollModule` has no intrinsic. -/
theorem intrinsic_pollModule {G : Function} (hG : G ∈ pollModule.functions) : G.intrinsic = none := by
  simp only [pollModule, List.mem_cons, List.not_mem_nil, or_false] at hG
  rcases hG with rfl | rfl | rfl <;> rfl

theorem movable_pollMain : Movable pollModule pollMain where
  unused :=
    { insts := by decide
      personalities := by simp [pollModule, pollMain, busyFn, closeFn]
      initializers := by simp [pollModule]
      aliasees := by simp [pollModule]
      resolvers := by simp [pollModule] }
  rets := by decide
  noPads := by decide
  noMustTail := by decide
  noVaStart := by
    intro I hI g ty hcallee G hG _
    simp [intrinsic_pollModule hG]
  noGC := by
    rintro I hI ⟨g, ty, hcallee, G, hG, -, hgc⟩
    rw [intrinsic_pollModule hG] at hgc
    cases hgc
  attributes := by decide
  callingConv := rfl
  subprogram := fun _ => rfl

theorem posixized_pollModule : Posixized pollModule "poll" pollMain :=
  (posixized_iff pollModule_wellFormed rfl rfl).mpr movable_pollMain

/-- The new `main` has a landing pad and no personality: the pass returns, and what it leaves is not
well-formed. -/
theorem posixized_catchModule : catchModule.WellFormed ∧
    catchModule.getFunction "main" = some catchMain ∧ catchMain.type.params = [] ∧
    (∃ M', posixizeMain catchModule "catch" = .ok ⟨[], true, M'⟩ ∧ ¬ M'.WellFormed) ∧
    ¬ Posixized catchModule "catch" catchMain := by
  have hM := catchModule_wellFormed
  have hbad : ¬ (replaced catchModule catchMain).WellFormed := by
    intro hwf
    have hpads := (hwf.functions (newMain catchModule catchMain)
      (mem_functions_replaced.mpr (.inr rfl))).pads (by decide)
    cases hpads
  refine ⟨hM, rfl, rfl, ⟨_, ?_, hbad⟩, ?_⟩
  · rw [posixizeMain_eq rfl rfl, replaceMain_eq hM rfl rfl]
    rfl
  · rintro ⟨M', N, hrun, hwf, -⟩
    obtain ⟨-, rfl⟩ := posixizeMain_inv hM rfl rfl hrun
    exact hbad hwf

end SnippetsLlvm.PosixMain
