import SnippetsLlvm.Ir.Types
import SnippetsLlvm.Library.FiniteDescent

/-!
# Types made of integers

`isIntegerRelatedType` asks whether a type is an integer, a pointer to an integer, or an array or a struct of
such types.  It looks into the bodies of identified structs, so it recurses along containment by value and
not along the syntax of a type; pointers are not followed.

* `StructTable` — the identified structs with their bodies;
* `IntegerRelated` — the grammar of the accepted types;
* `returns_of_acc` — the function returns where containment ends, and looks at every leaf;
* `isIntegerRelatedType_iff` — **it decides the grammar exactly where no opaque struct is contained, or a
  leaf of another kind is**: a struct without a body counts as a struct without elements.
-/

namespace SnippetsLlvm.MyBase

open SnippetsLlvm.Ir SnippetsLlvm.Library

/-! ### Identified structs -/

/-- The identified structs of a context: each has a body or is opaque. -/
abbrev StructTable : Type := List (String × Option (List Ty))

/-- The body of an identified struct; an opaque one has none. -/
def StructTable.body (S : StructTable) (name : String) : Option (List Ty) :=
  (S.find? (·.1 = name)).bind Prod.snd

theorem StructTable.mem_of_body {S : StructTable} {name : String} {es : List Ty}
    (h : S.body name = some es) : (name, some es) ∈ S := by
  obtain ⟨⟨n, b⟩, hfind, hb⟩ := Option.bind_eq_some_iff.mp h
  have hname : n = name := by simpa using List.find?_some hfind
  have hmem := List.mem_of_find?_eq_some hfind
  rw [hname, show b = some es from hb] at hmem
  exact hmem

/-! ### The function -/

/-- `isa<IntegerType>`. -/
def isIntegerType : Ty → Bool
  | .integer _ => true
  | _ => false

/-- The loop over the elements of a struct, with its early return. -/
def eachElement (f : Ty → Option Bool) : List Ty → Option Bool
  | [] => some true
  | eleTy :: rest => (f eleTy).bind fun b => if b then eachElement f rest else some false

variable (S : StructTable)

/-- **`isIntegerRelatedType`**, with a bound on the depth of the recursion.  `getNumElements` of an opaque
struct is zero, so that its loop does not run. -/
def isIntegerRelatedType : ℕ → Ty → Option Bool
  | 0, _ => none
  | n + 1, ty =>
    match ty with
    | .pointer elem _ => some (isIntegerType elem)
    | .struct es => eachElement (isIntegerRelatedType n) es
    | .identified name => eachElement (isIntegerRelatedType n) ((S.body name).getD [])
    | .array _ elem => isIntegerRelatedType n elem
    | ty => some (isIntegerType ty)

/-- The function returns `b`: with every bound from some depth on. -/
def Returns (ty : Ty) (b : Bool) : Prop := ∃ n, ∀ m, n ≤ m → isIntegerRelatedType S m ty = some b

variable {S} in
theorem Returns.unique {ty : Ty} {b b' : Bool} (h : Returns S ty b) (h' : Returns S ty b') : b = b' := by
  obtain ⟨n, hn⟩ := h
  obtain ⟨n', hn'⟩ := h'
  exact Option.some.inj ((hn (max n n') (by omega)).symm.trans (hn' (max n n') (by omega)))

/-! ### The grammar -/

/-- **The types made of integers**: `T ::= iN | iN * | [n x T] | struct with a body of T`. -/
inductive IntegerRelated : Ty → Prop where
  | integer (w : ℕ) : IntegerRelated (.integer w)
  | pointer (w a : ℕ) : IntegerRelated (.pointer (.integer w) a)
  | array (n : ℕ) {t : Ty} : IntegerRelated t → IntegerRelated (.array n t)
  | struct {es : List Ty} : (∀ t ∈ es, IntegerRelated t) → IntegerRelated (.struct es)
  | identified {name : String} {es : List Ty} : S.body name = some es →
      (∀ t ∈ es, IntegerRelated t) → IntegerRelated (.identified name)

/-! ### Containment by value -/

/-- A type contains another one by value, as an element. -/
inductive ByValue : Ty → Ty → Prop where
  | struct {es : List Ty} {t : Ty} : t ∈ es → ByValue (.struct es) t
  | identified {name : String} {es : List Ty} {t : Ty} : S.body name = some es → t ∈ es →
      ByValue (.identified name) t
  | array {n : ℕ} {t : Ty} : ByValue (.array n t) t

/-- A type occurs in another one by value, at any depth. -/
def Contains (ty t : Ty) : Prop := Relation.ReflTransGen (ByValue S) ty t

/-- No type contained in `ty` contains itself. -/
def Acyclic (ty : Ty) : Prop := ∀ t, Contains S ty t → ¬ Relation.TransGen (ByValue S) t t

/-- A struct without a body. -/
def IsOpaque (ty : Ty) : Prop := ∃ name, ty = .identified name ∧ S.body name = none

/-- A type that is no struct and no array, and neither an integer nor a pointer to an integer: a float, a
vector, a function, a pointer to a pointer, a struct or a function, and so on. -/
def isOtherLeaf : Ty → Bool
  | .integer _ | .pointer (.integer _) _ => false
  | .struct _ | .identified _ | .array _ _ => false
  | _ => true

variable {S}

/-- What holds of everything contained holds of the type and of everything contained in its elements. -/
theorem forall_contains_iff {P : Ty → Prop} {ty : Ty} : (∀ t, Contains S ty t → P t) ↔
    P ty ∧ ∀ u, ByValue S ty u → ∀ t, Contains S u t → P t := by
  constructor
  · intro h
    exact ⟨h ty .refl, fun u hu t ht => h t (.head hu ht)⟩
  · rintro ⟨hself, helems⟩ t ht
    rcases Relation.ReflTransGen.cases_head ht with rfl | ⟨u, hu, ht⟩
    · exact hself
    · exact helems u hu t ht

/-! ### Containment ends -/

mutual
/-- The types a type is built from, itself included, without looking into identified structs. -/
def parts : Ty → List Ty
  | .struct es => .struct es :: partsAll es
  | .array n t => .array n t :: parts t
  | t => [t]
/-- The parts of a list of types. -/
def partsAll : List Ty → List Ty
  | [] => []
  | t :: ts => parts t ++ partsAll ts
end

theorem self_mem_parts (t : Ty) : t ∈ parts t := by
  cases t <;> simp [parts]

theorem subset_partsAll {ts : List Ty} {t : Ty} (h : t ∈ ts) : parts t ⊆ partsAll ts := by
  induction ts with
  | nil => cases h
  | cons u us ih =>
    intro v hv
    rw [partsAll, List.mem_append]
    rcases List.mem_cons.mp h with rfl | h
    · exact .inl hv
    · exact .inr (ih h hv)

mutual
/-- The elements of a part are parts. -/
theorem parts_closed (t : Ty) : ∀ u ∈ parts t, ∀ v,
    (∃ es, u = .struct es ∧ v ∈ es) ∨ (∃ n, u = .array n v) → v ∈ parts t := by
  intro u hu v hv
  cases t with
  | struct es =>
    rw [parts, List.mem_cons] at hu ⊢
    rcases hu with rfl | hu
    · rcases hv with ⟨es', h, hv⟩ | ⟨n, h⟩
      · cases h
        exact .inr (subset_partsAll hv (self_mem_parts v))
      · cases h
    · exact .inr (partsAll_closed es u hu v hv)
  | array n t =>
    rw [parts, List.mem_cons] at hu ⊢
    rcases hu with rfl | hu
    · rcases hv with ⟨es', h, -⟩ | ⟨n, h⟩
      · cases h
      · cases h
        exact .inr (self_mem_parts v)
    · exact .inr (parts_closed t u hu v hv)
  | _ =>
    simp only [parts, List.mem_singleton] at hu
    subst hu
    rcases hv with ⟨es', h, -⟩ | ⟨n, h⟩ <;> cases h
/-- The elements of a part of a list are parts of it. -/
theorem partsAll_closed (ts : List Ty) : ∀ u ∈ partsAll ts, ∀ v,
    (∃ es, u = .struct es ∧ v ∈ es) ∨ (∃ n, u = .array n v) → v ∈ partsAll ts := by
  intro u hu v hv
  cases ts with
  | nil => cases hu
  | cons t ts =>
    rw [partsAll, List.mem_append] at hu ⊢
    rcases hu with hu | hu
    · exact .inl (parts_closed t u hu v hv)
    · exact .inr (partsAll_closed ts u hu v hv)
end

variable (S) in
/-- The parts of a type and of all bodies. -/
def allParts (ty : Ty) : List Ty := parts ty ++ S.flatMap fun p => partsAll (p.2.getD [])

theorem allParts_closed (ty : Ty) : ∀ u ∈ allParts S ty, ∀ v, ByValue S u v → v ∈ allParts S ty := by
  intro u hu v hv
  have hstep : (∃ es, u = .struct es ∧ v ∈ es) ∨ (∃ n, u = .array n v) → v ∈ allParts S ty := by
    intro h
    rw [allParts, List.mem_append, List.mem_flatMap] at hu ⊢
    rcases hu with hu | ⟨p, hp, hu⟩
    · exact .inl (parts_closed ty u hu v h)
    · exact .inr ⟨p, hp, partsAll_closed _ u hu v h⟩
  cases hv with
  | struct hmem => exact hstep (.inl ⟨_, rfl, hmem⟩)
  | identified hbody hmem =>
    refine List.mem_append_right _ (List.mem_flatMap.mpr ⟨_, StructTable.mem_of_body hbody, ?_⟩)
    exact subset_partsAll hmem (self_mem_parts v)
  | array => exact hstep (.inr ⟨_, rfl⟩)

/-- **Containment by value ends** where it has no cycle: the table is finite. -/
theorem Acyclic.acc {ty : Ty} (h : Acyclic S ty) : Acc (fun u t => ByValue S t u) ty :=
  acc_of_acyclic (List.finite_toSet (allParts S ty)) (allParts_closed ty)
    (List.mem_append_left _ (self_mem_parts ty)) h

/-! ### What the function computes -/

/-- The loop returns when the recursive calls do, and finds whether all of them returned true. -/
theorem eachElement_eventually {f : ℕ → Ty → Option Bool} {P : Ty → Prop} {ts : List Ty}
    (h : ∀ t ∈ ts, ∃ b, (∃ n, ∀ m, n ≤ m → f m t = some b) ∧ (b = true ↔ P t)) :
    ∃ b, (∃ n, ∀ m, n ≤ m → eachElement (f m) ts = some b) ∧ (b = true ↔ ∀ t ∈ ts, P t) := by
  induction ts with
  | nil => exact ⟨true, ⟨0, fun m _ => rfl⟩, by simp⟩
  | cons t ts ih =>
    obtain ⟨b, ⟨n, hn⟩, hb⟩ := h t List.mem_cons_self
    obtain ⟨b', ⟨n', hn'⟩, hb'⟩ := ih fun u hu => h u (List.mem_cons_of_mem _ hu)
    refine ⟨b && b', ⟨max n n', fun m hm => ?_⟩, by simp [hb, hb']⟩
    rw [eachElement, hn m (by omega), Option.bind_some, hn' m (by omega)]
    cases b <;> rfl

/-- **The function returns where containment ends**, and then tells whether every leaf is an integer or a
pointer to one. -/
theorem returns_of_acc {ty : Ty} (h : Acc (fun u t => ByValue S t u) ty) :
    ∃ b, Returns S ty b ∧ (b = true ↔ ∀ t, Contains S ty t → isOtherLeaf t = false) := by
  induction h with
  | intro ty _ ih =>
    -- one level deeper, for a loop over the elements
    have hloop : ∀ ts : List Ty, (∀ t, ByValue S ty t ↔ t ∈ ts) → isOtherLeaf ty = false →
        (∀ n, isIntegerRelatedType S (n + 1) ty = eachElement (isIntegerRelatedType S n) ts) →
        ∃ b, Returns S ty b ∧ (b = true ↔ ∀ t, Contains S ty t → isOtherLeaf t = false) := by
      intro ts hts hty hrun
      have heach : ∀ u ∈ ts, ∃ b, (∃ n, ∀ m, n ≤ m → isIntegerRelatedType S m u = some b) ∧
          (b = true ↔ ∀ t, Contains S u t → isOtherLeaf t = false) := fun u hu => ih u ((hts u).mpr hu)
      obtain ⟨b, ⟨n, hn⟩, hb⟩ := eachElement_eventually heach
      refine ⟨b, ⟨n + 1, fun m hm => ?_⟩, ?_⟩
      · obtain ⟨k, rfl⟩ := Nat.exists_eq_add_of_le' (show 1 ≤ m by omega)
        rw [hrun, hn k (by omega)]
      · rw [hb, @forall_contains_iff _ _ ty]
        simp only [hty, true_and, hts]
    -- a type without elements
    have hleaf : ∀ b, (∀ t, ¬ ByValue S ty t) → (∀ n, isIntegerRelatedType S (n + 1) ty = some b) →
        (b = true ↔ isOtherLeaf ty = false) →
        ∃ b, Returns S ty b ∧ (b = true ↔ ∀ t, Contains S ty t → isOtherLeaf t = false) := by
      intro b hno hrun hb
      refine ⟨b, ⟨1, fun m hm => ?_⟩, ?_⟩
      · obtain ⟨k, rfl⟩ := Nat.exists_eq_add_of_le' hm
        exact hrun k
      · rw [hb, forall_contains_iff]
        exact ⟨fun h => ⟨h, fun u hu => absurd hu (hno u)⟩, fun h => h.1⟩
    cases ty with
    | struct es =>
      refine hloop es (fun t => ⟨fun h => ?_, .struct⟩) rfl fun n => rfl
      cases h with
      | struct h => exact h
    | identified name =>
      refine hloop ((S.body name).getD []) (fun t => ?_) rfl fun n => rfl
      constructor
      · intro h
        cases h with
        | identified hbody hmem =>
          rw [hbody]
          exact hmem
      · intro h
        cases hbody : S.body name with
        | none =>
          rw [hbody] at h
          cases h
        | some es =>
          rw [hbody] at h
          exact .identified hbody h
    | array n elem =>
      obtain ⟨b, ⟨N, hN⟩, hb⟩ := ih elem .array
      refine ⟨b, ⟨N + 1, fun m hm => ?_⟩, ?_⟩
      · obtain ⟨k, rfl⟩ := Nat.exists_eq_add_of_le' (show 1 ≤ m by omega)
        exact hN k (by omega)
      · rw [hb, @forall_contains_iff _ _ (.array n elem)]
        constructor
        · intro h
          refine ⟨rfl, fun u hu => ?_⟩
          cases hu
          exact h
        · exact fun h => h.2 elem .array
    | pointer elem a =>
      refine hleaf (isIntegerType elem) (fun t h => by cases h) (fun n => rfl) ?_
      cases elem <;> simp [isIntegerType, isOtherLeaf]
    | _ =>
      refine hleaf _ (fun t h => by cases h) (fun n => rfl) ?_
      simp [isIntegerType, isOtherLeaf]

/-- **The grammar, leaf by leaf**: no leaf of another kind, and no opaque struct. -/
theorem integerRelated_iff {ty : Ty} (h : Acc (fun u t => ByValue S t u) ty) :
    IntegerRelated S ty ↔ ∀ t, Contains S ty t → isOtherLeaf t = false ∧ ¬ IsOpaque S t := by
  constructor
  · intro hty
    induction hty with
    | integer w =>
      refine forall_contains_iff.mpr ⟨⟨rfl, ?_⟩, fun u hu => by cases hu⟩
      rintro ⟨name, hname, -⟩
      cases hname
    | pointer w a =>
      refine forall_contains_iff.mpr ⟨⟨rfl, ?_⟩, fun u hu => by cases hu⟩
      rintro ⟨name, hname, -⟩
      cases hname
    | array n _ ih =>
      refine forall_contains_iff.mpr ⟨⟨rfl, ?_⟩, fun u hu => ?_⟩
      · rintro ⟨name, hname, -⟩
        cases hname
      · cases hu
        exact ih (h.inv .array)
    | struct _ ih =>
      refine forall_contains_iff.mpr ⟨⟨rfl, ?_⟩, fun u hu => ?_⟩
      · rintro ⟨name, hname, -⟩
        cases hname
      · cases hu with
        | struct hmem => exact ih u hmem (h.inv (.struct hmem))
    | @identified name es hbody _ ih =>
      refine forall_contains_iff.mpr ⟨⟨rfl, ?_⟩, fun u hu => ?_⟩
      · rintro ⟨name', hname, hnone⟩
        cases hname
        rw [hbody] at hnone
        cases hnone
      · cases hu with
        | identified hbody' hmem =>
          rw [hbody, Option.some.injEq] at hbody'
          subst hbody'
          exact ih u hmem (h.inv (.identified hbody hmem))
  · intro hall
    induction h with
    | intro ty _ ih =>
      obtain ⟨⟨hleaf, hopq⟩, helems⟩ := forall_contains_iff.mp hall
      cases ty with
      | integer w => exact .integer w
      | pointer elem a =>
        cases elem with
        | integer w => exact .pointer w a
        | _ => cases hleaf
      | array n elem => exact .array n (ih elem .array (helems elem .array))
      | struct es => exact .struct fun t ht => ih t (.struct ht) (helems t (.struct ht))
      | identified name =>
        cases hbody : S.body name with
        | none => exact absurd ⟨name, rfl, hbody⟩ hopq
        | some es =>
          refine .identified hbody fun t ht => ?_
          have hstep : ByValue S (.identified name) t := .identified hbody ht
          exact ih t hstep (helems t hstep)
      | _ => cases hleaf

/-- **`isIntegerRelatedType` terminates and decides the grammar** exactly when the type contains no opaque
struct by value, or contains a leaf of another kind besides. -/
theorem isIntegerRelatedType_iff (S : StructTable) (ty : Ty) (h : Acyclic S ty) :
    ∃ b, Returns S ty b ∧
      ((b = true ↔ IntegerRelated S ty) ↔
        (∀ t, Contains S ty t → ¬ IsOpaque S t) ∨ ∃ t, Contains S ty t ∧ isOtherLeaf t = true) := by
  obtain ⟨b, hreturns, hb⟩ := returns_of_acc h.acc
  refine ⟨b, hreturns, ?_⟩
  rw [hb, integerRelated_iff h.acc, forall₂_and]
  constructor
  · intro hiff
    by_cases hleaf : ∃ t, Contains S ty t ∧ isOtherLeaf t = true
    · exact .inr hleaf
    · refine .inl (hiff.mp fun t ht => ?_).2
      by_contra hother
      exact hleaf ⟨t, ht, by simpa using hother⟩
  · rintro (hopq | ⟨t, ht, hother⟩)
    · exact ⟨fun hleaf => ⟨hleaf, hopq⟩, fun hall => hall.1⟩
    · have hfalse : ¬ ∀ t, Contains S ty t → isOtherLeaf t = false := by
        intro hall
        rw [hall t ht] at hother
        cases hother
      exact ⟨fun hleaf => absurd hleaf hfalse, fun hall => absurd hall.1 hfalse⟩

/-! ### The structs of a small program -/

/-- `struct ST; struct SS { int a; char b; char *str; };`. -/
def declaredStructs : StructTable :=
  [("struct.ST", none), ("struct.SS", some [.i32, .integer 8, .i8Ptr])]

theorem not_byValue_leaf {t u : Ty} (ht : t ∈ [Ty.i32, .integer 8, .i8Ptr]) : ¬ ByValue S t u := by
  simp only [List.mem_cons, List.not_mem_nil, or_false] at ht
  rcases ht with rfl | rfl | rfl <;> exact fun h => by cases h

theorem acyclic_structSS : Acyclic declaredStructs (.identified "struct.SS") := by
  have hstep : ∀ u, ByValue declaredStructs (.identified "struct.SS") u →
      u ∈ [Ty.i32, .integer 8, .i8Ptr] := by
    intro u hu
    cases hu with
    | identified hbody hmem =>
      cases hbody
      exact hmem
  intro t ht hcycle
  obtain ⟨u, htu, hut⟩ := Relation.TransGen.head'_iff.mp hcycle
  rcases Relation.ReflTransGen.cases_head ht with rfl | ⟨v, hv, hvt⟩
  · rcases Relation.ReflTransGen.cases_head hut with rfl | ⟨w, huw, -⟩
    · exact not_byValue_leaf (hstep _ htu) htu
    · exact not_byValue_leaf (hstep u htu) huw
  · rcases Relation.ReflTransGen.cases_head hvt with rfl | ⟨w, hvw, -⟩
    · exact not_byValue_leaf (hstep v hv) htu
    · exact not_byValue_leaf (hstep v hv) hvw

theorem isIntegerRelatedType_structSS : ∃ b, Returns declaredStructs (.identified "struct.SS") b ∧
    ((b = true ↔ IntegerRelated declaredStructs (.identified "struct.SS")) ↔
      (∀ t, Contains declaredStructs (.identified "struct.SS") t → ¬ IsOpaque declaredStructs t) ∨
        ∃ t, Contains declaredStructs (.identified "struct.SS") t ∧ isOtherLeaf t = true) :=
  isIntegerRelatedType_iff declaredStructs (.identified "struct.SS") acyclic_structSS

/-- The struct that is only declared is accepted. -/
theorem isIntegerRelatedType_structST :
    Acyclic declaredStructs (.identified "struct.ST") ∧
      Returns declaredStructs (.identified "struct.ST") true ∧
      ¬ IntegerRelated declaredStructs (.identified "struct.ST") ∧
      ¬ ∃ b, Returns declaredStructs (.identified "struct.ST") b ∧
        (b = true ↔ IntegerRelated declaredStructs (.identified "struct.ST")) := by
  have hno : ∀ u, ¬ ByValue declaredStructs (.identified "struct.ST") u := by
    intro u hu
    cases hu with
    | identified hbody => cases hbody
  have hreturns : Returns declaredStructs (.identified "struct.ST") true := by
    refine ⟨1, fun m hm => ?_⟩
    obtain ⟨k, rfl⟩ := Nat.exists_eq_add_of_le' hm
    rfl
  have hnot : ¬ IntegerRelated declaredStructs (.identified "struct.ST") := by
    intro h
    cases h with
    | identified hbody => cases hbody
  refine ⟨fun t ht hcycle => ?_, hreturns, hnot, ?_⟩
  · rcases Relation.ReflTransGen.cases_head ht with rfl | ⟨u, hu, -⟩
    · obtain ⟨u, hu, -⟩ := Relation.TransGen.head'_iff.mp hcycle
      exact hno u hu
    · exact hno u hu
  · rintro ⟨b, hb, hiff⟩
    exact hnot (hiff.mp (hb.unique hreturns))

end SnippetsLlvm.MyBase
