import SnippetsLlvm.Ir.WellFormed

/-!
# Edits that keep a module well-formed

A pass edits a module by creating variables and functions and by rewriting function bodies.  A creation
keeps everything that was there and takes a fresh identity and a fresh name; a rewriting keeps the header of
each function.  In both cases the symbol table stays in order and every reference stays good, so that the
rules on the module come down to the rules on the functions that were rewritten.

* `Extends` — the references of one module are good in the other;
* `WellFormed.addGlobalVariable`, `WellFormed.addFunction` — creations;
* `mapFunctions`, `mapFunctions_wellFormed_iff` — **rewriting bodies keeps a module well-formed exactly when
  it keeps each function well-formed**.
-/

namespace SnippetsLlvm.Ir

/-! ### References that stay good -/

/-- What refers into `M` also refers into `N`, and `N` declares no other intrinsics. -/
structure Module.Extends (M N : Module) : Prop where
  refs : ∀ V ∈ M.globalValues, ∃ W ∈ N.globalValues, W.ref = V.ref
  intrinsics : ∀ F ∈ N.functions, F.intrinsic.isSome = true →
    ∃ G ∈ M.functions, G.id = F.id ∧ G.name = F.name ∧ G.intrinsic = F.intrinsic

theorem GlobalValue.id_of_ref {V W : GlobalValue} (h : W.ref = V.ref) : W.id = V.id := by
  rw [GlobalValue.ref, GlobalValue.ref, Constant.global.injEq] at h
  exact h.1

namespace Module.Extends

theorem trans {M N P : Module} (h : M.Extends N) (h' : N.Extends P) : M.Extends P where
  refs V hV := by
    obtain ⟨W, hW, href⟩ := h.refs V hV
    obtain ⟨X, hX, href'⟩ := h'.refs W hW
    exact ⟨X, hX, href'.trans href⟩
  intrinsics F hF hintr := by
    obtain ⟨G, hG, hid, hname, hintr'⟩ := h'.intrinsics F hF hintr
    obtain ⟨H, hH, hid', hname', hintr''⟩ := h.intrinsics G hG (hintr' ▸ hintr)
    exact ⟨H, hH, hid'.trans hid, hname'.trans hname, hintr''.trans hintr'⟩

variable {M N : Module} (h : M.Extends N)
include h

theorem exists_id {g : ℕ} (hg : ∃ V ∈ M.globalValues, V.id = g) : ∃ V ∈ N.globalValues, V.id = g := by
  obtain ⟨V, hV, rfl⟩ := hg
  obtain ⟨W, hW, href⟩ := h.refs V hV
  exact ⟨W, hW, GlobalValue.id_of_ref href⟩

theorem globalsIn {v : Value} (hv : v.GlobalsIn M) : v.GlobalsIn N := by
  refine ⟨fun g k ty hconst => ?_, fun g hg => h.exists_id (hv.2 g hg)⟩
  obtain ⟨V, hV, href⟩ := hv.1 g k ty hconst
  obtain ⟨W, hW, href'⟩ := h.refs V hV
  exact ⟨W, hW, href'.trans href⟩

/-- A function that is well-formed in `M` is well-formed in `N`. -/
theorem function_wellFormed {F : Function} (hF : F.WellFormed M) : F.WellFormed N := by
  refine hF.ofModule (fun I hI v hv => h.globalsIn (hF.globalRefs I hI v hv)) (fun G hG hintr => ?_)
    fun c hc g hg => h.exists_id (hF.personalityRef c hc g hg)
  obtain ⟨H, hH, hid, -, hsame⟩ := h.intrinsics G hG hintr
  exact ⟨H, hH, hid, hsame⟩

end Module.Extends

/-! ### Creations -/

section Creations

variable {M : Module} {ty : Ty} {fty : FunctionType} {b : Bool} {l : Linkage} {init : Option Constant}
  {name : String} {attrs : AttributeList}

theorem addGlobalVariable_perm : (M.addGlobalVariable ty b l init name).1.globalValues.Perm
    (.variable (M.addGlobalVariable ty b l init name).2 :: M.globalValues) := by
  simp only [Module.globalValues, Module.addGlobalVariable, List.map_append, List.map_cons,
    List.map_nil, List.append_assoc]
  rw [← List.append_assoc]
  refine List.perm_middle.trans ?_
  rw [List.append_assoc]
  rfl

theorem addFunction_perm : (M.addFunction fty l name attrs).1.globalValues.Perm
    (.function (M.addFunction fty l name attrs).2 :: M.globalValues) := by
  simp only [Module.globalValues, Module.addFunction, List.map_append, List.map_cons, List.map_nil,
    List.append_assoc]
  exact List.perm_middle

theorem extends_addGlobalVariable : M.Extends (M.addGlobalVariable ty b l init name).1 where
  refs V hV := ⟨V, addGlobalVariable_perm.mem_iff.mpr (List.mem_cons_of_mem _ hV), rfl⟩
  intrinsics F hF _ := ⟨F, hF, rfl, rfl, rfl⟩

theorem extends_addFunction : M.Extends (M.addFunction fty l name attrs).1 where
  refs V hV := ⟨V, addFunction_perm.mem_iff.mpr (List.mem_cons_of_mem _ hV), rfl⟩
  intrinsics F hF hintr := by
    rcases List.mem_append.mp hF with hF | hF
    · exact ⟨F, hF, rfl, rfl, rfl⟩
    · rw [List.mem_singleton.mp hF] at hintr
      cases hintr

/-- A declaration whose attributes fit breaks no rule on functions. -/
theorem declaration_wellFormed {F : Function} (hblocks : F.blocks = []) (hpers : F.personality = none)
    (hattrs : F.attributes.Fits F.type.ret F.unnamedAddr) : F.WellFormed M := by
  have hinsts : F.insts = [] := by rw [Function.insts, hblocks]; rfl
  constructor <;> simp [hblocks, hinsts, hpers, hattrs]

end Creations

namespace Module.WellFormed

variable {M : Module} (h : M.WellFormed)
include h

/-- One more global value, with the next identity and a name that is free, over old references. -/
theorem cons {N : Module} {V : GlobalValue} (hperm : N.globalValues.Perm (V :: M.globalValues))
    (hid : V.id = M.nextGlobal) (hnext : N.nextGlobal = M.nextGlobal + 1) (hname : V.name ∉ M.names)
    (hext : M.Extends N) (hfns : ∀ F ∈ N.functions, F.WellFormed N)
    (hinits : ∀ G ∈ N.globals, ∀ c, G.initializer = some c →
      c.getType = G.valueType ∧ ∀ g, c.mentions g = true → ∃ V ∈ N.globalValues, V.id = g)
    (haliases : N.aliases = M.aliases) (hifuncs : N.ifuncs = M.ifuncs) : N.WellFormed := by
  refine ⟨?_, fun W hW => ?_, ?_, hfns, hinits, fun A hA g hg => ?_, fun I hI g hg => ?_,
    fun F hF hintr => ?_⟩
  · refine (hperm.map GlobalValue.id).nodup_iff.mpr ?_
    rw [List.map_cons, List.nodup_cons]
    refine ⟨fun hmem => ?_, h.ids⟩
    obtain ⟨W, hW, hWid⟩ := List.mem_map.mp hmem
    have := h.idBound W hW
    omega
  · rcases List.mem_cons.mp (hperm.mem_iff.mp hW) with rfl | hW
    · omega
    · have := h.idBound W hW
      omega
  · refine ((hperm.map GlobalValue.name).filter _).nodup_iff.mpr ?_
    rw [List.map_cons, List.filter_cons]
    split
    · exact List.nodup_cons.mpr ⟨fun hmem => hname (List.mem_of_mem_filter hmem), h.names⟩
    · exact h.names
  · exact hext.exists_id (h.aliasees A (haliases ▸ hA) g hg)
  · exact hext.exists_id (h.resolvers I (hifuncs ▸ hI) g hg)
  · obtain ⟨G, hG, -, hname, hintr'⟩ := hext.intrinsics F hF hintr
    rw [← hname]
    exact h.intrinsics G hG (hintr' ▸ hintr)

/-- **A variable may be created** when its initializer has its type and uses what is there. -/
theorem addGlobalVariable {ty : Ty} {b : Bool} {l : Linkage} {init : Option Constant} {name : String}
    (hinit : ∀ c, init = some c → c.getType = ty ∧
      ∀ g, c.mentions g = true → ∃ V ∈ M.globalValues, V.id = g) :
    (M.addGlobalVariable ty b l init name).1.WellFormed := by
  refine h.cons addGlobalVariable_perm rfl rfl (M.uniqueName_notMem name) extends_addGlobalVariable
    (fun F hF => extends_addGlobalVariable.function_wellFormed (h.functions F hF)) ?_ rfl rfl
  intro G hG c hc
  have hold : c.getType = G.valueType ∧
      ∀ g, c.mentions g = true → ∃ V ∈ M.globalValues, V.id = g := by
    rcases List.mem_append.mp hG with hG | hG
    · exact h.initializers G hG c hc
    · rw [List.mem_singleton.mp hG] at hc ⊢
      exact hinit c hc
  exact ⟨hold.1, fun g hg => extends_addGlobalVariable.exists_id (hold.2 g hg)⟩

/-- **A function may be declared** with attributes that fit its return type. -/
theorem addFunction {ty : FunctionType} {l : Linkage} {name : String} {attrs : AttributeList}
    (hattrs : attrs.Fits ty.ret false) : (M.addFunction ty l name attrs).1.WellFormed := by
  refine h.cons addFunction_perm rfl rfl (M.uniqueName_notMem name) extends_addFunction
    (fun F hF => ?_) (fun G hG c hc => ?_) rfl rfl
  · rcases List.mem_append.mp hF with hF | hF
    · exact extends_addFunction.function_wellFormed (h.functions F hF)
    · rw [List.mem_singleton.mp hF]
      exact declaration_wellFormed rfl rfl hattrs
  · obtain ⟨hty, huses⟩ := h.initializers G hG c hc
    exact ⟨hty, fun g hg => extends_addFunction.exists_id (huses g hg)⟩

end Module.WellFormed

/-! ### Rewriting function bodies -/

/-- A rewriting of function bodies that keeps what the symbol table shows of a function. -/
structure KeepsHeader (f : Function → Function) : Prop where
  id : ∀ F, (f F).id = F.id
  name : ∀ F, (f F).name = F.name
  type : ∀ F, (f F).type = F.type
  intrinsic : ∀ F, (f F).intrinsic = F.intrinsic

/-- Each function rewritten. -/
def Module.mapFunctions (M : Module) (f : Function → Function) : Module :=
  { M with functions := M.functions.map f }

/-- A rewriting of one function keeps headers when it does so there. -/
theorem KeepsHeader.ite {f : Function → Function} (h : KeepsHeader f) (g : ℕ) :
    KeepsHeader fun F => if F.id = g then f F else F := by
  constructor <;> intro F <;> split
  · exact h.id F
  · rfl
  · exact h.name F
  · rfl
  · exact h.type F
  · rfl
  · exact h.intrinsic F
  · rfl

section Rewriting

variable {M : Module} {f : Function → Function}

/-- What a rewriting of bodies leaves alone is the same for all globals. -/
theorem map_mapFunctions {α : Type} (key : GlobalValue → α)
    (hkey : ∀ F, key (.function (f F)) = key (.function F)) :
    (M.mapFunctions f).globalValues.map key = M.globalValues.map key := by
  have hfun : (key ∘ GlobalValue.function) ∘ f = key ∘ GlobalValue.function := funext hkey
  simp only [Module.globalValues, Module.mapFunctions, List.map_append, List.map_map,
    ← Function.comp_assoc, hfun]

variable (hf : KeepsHeader f)
include hf

theorem map_ref_mapFunctions :
    (M.mapFunctions f).globalValues.map GlobalValue.ref = M.globalValues.map GlobalValue.ref := by
  refine map_mapFunctions _ fun F => ?_
  show Constant.global (f F).id .function (f F).type.ptrTy = .global F.id .function F.type.ptrTy
  rw [hf.id, hf.type]

theorem extends_mapFunctions : M.Extends (M.mapFunctions f) where
  refs V hV := by
    have hmem := List.mem_map_of_mem (f := GlobalValue.ref) hV
    rw [← map_ref_mapFunctions hf] at hmem
    exact List.mem_map.mp hmem
  intrinsics F hF _ := by
    obtain ⟨G, hG, rfl⟩ := List.mem_map.mp hF
    exact ⟨G, hG, (hf.id G).symm, (hf.name G).symm, (hf.intrinsic G).symm⟩

theorem mapFunctions_extends : (M.mapFunctions f).Extends M where
  refs V hV := by
    have hmem := List.mem_map_of_mem (f := GlobalValue.ref) hV
    rw [map_ref_mapFunctions hf] at hmem
    exact List.mem_map.mp hmem
  intrinsics F hF _ := ⟨f F, List.mem_map_of_mem hF, hf.id F, hf.name F, hf.intrinsic F⟩

/-- **Rewriting bodies keeps a module well-formed exactly when it keeps each function well-formed.** -/
theorem mapFunctions_wellFormed_iff (h : M.WellFormed) :
    (M.mapFunctions f).WellFormed ↔ ∀ F ∈ M.functions, (f F).WellFormed M := by
  constructor
  · intro hwf F hF
    exact (mapFunctions_extends hf).function_wellFormed (hwf.functions _ (List.mem_map_of_mem hF))
  · intro hfns
    have hext := extends_mapFunctions (M := M) hf
    have hids := map_mapFunctions (M := M) (f := f) GlobalValue.id hf.id
    have hnames : (M.mapFunctions f).names = M.names := map_mapFunctions GlobalValue.name hf.name
    refine ⟨hids ▸ h.ids, fun V hV => ?_, hnames ▸ h.names, fun F hF => ?_, fun G hG c hc => ?_,
      fun A hA g hg => hext.exists_id (h.aliasees A hA g hg),
      fun I hI g hg => hext.exists_id (h.resolvers I hI g hg), fun F hF hintr => ?_⟩
    · have hmem := List.mem_map_of_mem (f := GlobalValue.id) hV
      rw [hids] at hmem
      obtain ⟨W, hW, hid⟩ := List.mem_map.mp hmem
      exact hid ▸ h.idBound W hW
    · obtain ⟨G, hG, rfl⟩ := List.mem_map.mp hF
      exact hext.function_wellFormed (hfns G hG)
    · obtain ⟨hty, huses⟩ := h.initializers G hG c hc
      exact ⟨hty, fun g hg => hext.exists_id (huses g hg)⟩
    · obtain ⟨G, hG, rfl⟩ := List.mem_map.mp hF
      rw [hf.name]
      exact h.intrinsics G hG (hf.intrinsic G ▸ hintr)

end Rewriting

end SnippetsLlvm.Ir
