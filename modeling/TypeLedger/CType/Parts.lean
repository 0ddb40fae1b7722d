import TypeLedger.CType.Context

/-!
# The types that a type leads to

* `components` are the types that the record of a canonical type refers to: the type without its
  qualifiers, if it has some, else what the type is made of, the members and bases of a record
  included.
* `closure` is a list that holds the canonical forms of some types and is closed under
  `components` (`desugar_mem_closure_of_component`). It is finite although records may lead back
  to themselves, so whoever follows components and passes over what was met comes to an end.
-/

namespace TypeLedger

namespace CType

mutual

/-- The parts of a type, each with and without its qualifiers. -/
def parts : CType → List CType
  | null q => [null q, null .none]
  | builtin q s => [builtin q s, builtin .none s]
  | pointer q k t => pointer q k t :: pointer .none k t :: t.parts
  | array q n t => array q n t :: array .none n t :: t.parts
  | function q r ps v => function q r ps v :: function .none r ps v :: (r.parts ++ partsAll ps)
  | record q i => [record q i, record .none i]
  | enumeration q i => [enumeration q i, enumeration .none i]
  | synonym q n t => synonym q n t :: synonym .none n t :: t.parts
  | complex q t => complex q t :: complex .none t :: t.parts
  | vector q n t => vector q n t :: vector .none n t :: t.parts
  | dependent q s => [dependent q s, dependent .none s]

/-- The parts of some types. -/
def partsAll : List CType → List CType
  | [] => []
  | t :: ts => t.parts ++ partsAll ts

end

theorem mem_parts_self (t : CType) : t ∈ t.parts := by
  cases t <;> simp [parts]

theorem mem_partsAll {ts : List CType} {t u : CType} (ht : t ∈ ts) (hu : u ∈ t.parts) :
    u ∈ partsAll ts := by
  induction ts with
  | nil => simp at ht
  | cons s ts ih =>
    simp only [partsAll, List.mem_append]
    rcases List.mem_cons.1 ht with rfl | ht
    · exact .inl hu
    · exact .inr (ih ht)

/-- The types that stand directly in a type, a record's members apart. -/
def children : CType → List CType
  | null _ | builtin _ _ | record _ _ | enumeration _ _ | dependent _ _ => []
  | pointer _ _ t | array _ _ t | synonym _ _ t | complex _ t | vector _ _ t => [t]
  | function _ r ps _ => r :: ps

mutual

theorem unqualified_mem_parts : ∀ {t u : CType}, u ∈ t.parts → u.unqualified ∈ t.parts
  | null _, u, h | builtin _ _, u, h | record _ _, u, h | enumeration _ _, u, h
  | dependent _ _, u, h => by
    simp only [parts, List.mem_cons, List.not_mem_nil, or_false] at h ⊢
    rcases h with rfl | rfl <;> simp [unqualified, withQuals]
  | pointer _ _ t, u, h | array _ _ t, u, h | synonym _ _ t, u, h | complex _ t, u, h
  | vector _ _ t, u, h => by
    simp only [parts, List.mem_cons] at h ⊢
    rcases h with rfl | rfl | h
    · simp [unqualified, withQuals]
    · simp [unqualified, withQuals]
    · exact .inr (.inr (unqualified_mem_parts h))
  | function _ r ps _, u, h => by
    simp only [parts, List.mem_cons, List.mem_append] at h ⊢
    rcases h with rfl | rfl | h | h
    · simp [unqualified, withQuals]
    · simp [unqualified, withQuals]
    · exact .inr (.inr (.inl (unqualified_mem_parts h)))
    · exact .inr (.inr (.inr (unqualified_mem_partsAll h)))

theorem unqualified_mem_partsAll :
    ∀ {ts : List CType} {u : CType}, u ∈ partsAll ts → u.unqualified ∈ partsAll ts
  | [], _, h => by simp [partsAll] at h
  | t :: ts, u, h => by
    simp only [partsAll, List.mem_append] at h ⊢
    exact h.imp unqualified_mem_parts unqualified_mem_partsAll

end

mutual

theorem child_mem_parts : ∀ {t u c : CType}, u ∈ t.parts → c ∈ u.children → c ∈ t.parts
  | null _, u, c, h, hc | builtin _ _, u, c, h, hc | record _ _, u, c, h, hc
  | enumeration _ _, u, c, h, hc | dependent _ _, u, c, h, hc => by
    simp only [parts, List.mem_cons, List.not_mem_nil, or_false] at h
    rcases h with rfl | rfl <;> simp [children] at hc
  | pointer _ _ t, u, c, h, hc | array _ _ t, u, c, h, hc | synonym _ _ t, u, c, h, hc
  | complex _ t, u, c, h, hc | vector _ _ t, u, c, h, hc => by
    simp only [parts, List.mem_cons] at h ⊢
    rcases h with rfl | rfl | h
    · simp only [children, List.mem_singleton] at hc
      exact .inr (.inr (hc ▸ mem_parts_self _))
    · simp only [children, List.mem_singleton] at hc
      exact .inr (.inr (hc ▸ mem_parts_self _))
    · exact .inr (.inr (child_mem_parts h hc))
  | function _ r ps _, u, c, h, hc => by
    have hown : c ∈ r :: ps → c ∈ r.parts ∨ c ∈ partsAll ps := fun hm => by
      rcases List.mem_cons.1 hm with rfl | hm
      · exact .inl (mem_parts_self _)
      · exact .inr (mem_partsAll hm (mem_parts_self _))
    simp only [parts, List.mem_cons, List.mem_append] at h ⊢
    rcases h with rfl | rfl | h | h
    · exact .inr (.inr (hown hc))
    · exact .inr (.inr (hown hc))
    · exact .inr (.inr (.inl (child_mem_parts h hc)))
    · exact .inr (.inr (.inr (child_mem_partsAll h hc)))

theorem child_mem_partsAll :
    ∀ {ts : List CType} {u c : CType}, u ∈ partsAll ts → c ∈ u.children → c ∈ partsAll ts
  | [], _, _, h, _ => by simp [partsAll] at h
  | t :: ts, u, c, h, hc => by
    simp only [partsAll, List.mem_append] at h ⊢
    exact h.imp (child_mem_parts · hc) (child_mem_partsAll · hc)

end

mutual

theorem hasSugar_of_mem_parts :
    ∀ {t u : CType}, t.hasSugar = false → u ∈ t.parts → u.hasSugar = false
  | null _, u, _, h | builtin _ _, u, _, h | record _ _, u, _, h | enumeration _ _, u, _, h
  | dependent _ _, u, _, h => by
    simp only [parts, List.mem_cons, List.not_mem_nil, or_false] at h
    rcases h with rfl | rfl <;> simp [hasSugar]
  | synonym _ _ t, u, ht, h => by simp [hasSugar] at ht
  | pointer _ _ t, u, ht, h | array _ _ t, u, ht, h | complex _ t, u, ht, h
  | vector _ _ t, u, ht, h => by
    simp only [hasSugar] at ht
    simp only [parts, List.mem_cons] at h
    rcases h with rfl | rfl | h
    · simpa [hasSugar] using ht
    · simpa [hasSugar] using ht
    · exact hasSugar_of_mem_parts ht h
  | function _ r ps _, u, ht, h => by
    have ht' := ht
    simp only [hasSugar, Bool.or_eq_false_iff] at ht'
    simp only [parts, List.mem_cons, List.mem_append] at h
    rcases h with rfl | rfl | h | h
    · exact ht
    · simpa [hasSugar] using ht
    · exact hasSugar_of_mem_parts ht'.1 h
    · exact hasSugar_of_mem_partsAll ht'.2 h

theorem hasSugar_of_mem_partsAll :
    ∀ {ts : List CType} {u : CType}, anySugar ts = false → u ∈ partsAll ts → u.hasSugar = false
  | [], _, _, h => by simp [partsAll] at h
  | t :: ts, u, ht, h => by
    simp only [anySugar, Bool.or_eq_false_iff] at ht
    simp only [partsAll, List.mem_append] at h
    rcases h with h | h
    · exact hasSugar_of_mem_parts ht.1 h
    · exact hasSugar_of_mem_partsAll ht.2 h

end

end CType

namespace Context

/-- The types of the members and bases of all records. -/
def memberTypes (ctx : Context) : List CType := ctx.records.flatMap RecordDecl.types

/-- The types that the record of a canonical type refers to, in the order in which a table numbers
them. -/
def components (ctx : Context) (t : CType) : List CType :=
  if t.quals.isEmpty then
    match ctx.classify t with
    | .builtin _ | .enumeration _ | .other _ _ => []
    | .pointer _ t | .array _ t => [t]
    | .function r ps _ => r :: ps
    | .record d => d.types
  else [t.unqualified]

/-- The parts of the canonical forms of some types and of all member and base types. -/
def closure (ctx : Context) (ts : List CType) : List CType :=
  (ts ++ ctx.memberTypes).flatMap fun t => t.desugar.parts

theorem desugar_mem_closure {ctx : Context} {ts : List CType} {t : CType} (h : t ∈ ts) :
    t.desugar ∈ ctx.closure ts :=
  List.mem_flatMap.2 ⟨t, List.mem_append_left _ h, CType.mem_parts_self _⟩

theorem hasSugar_of_mem_closure {ctx : Context} {ts : List CType} {t : CType}
    (h : t ∈ ctx.closure ts) : t.hasSugar = false := by
  obtain ⟨s, _, hs⟩ := List.mem_flatMap.1 h
  exact CType.hasSugar_of_mem_parts (CType.hasSugar_desugar s) hs

theorem types_subset_memberTypes {ctx : Context} {id : RecordId} {d : RecordDecl}
    (h : ctx.record? id = some d) {t : CType} (ht : t ∈ d.types) : t ∈ ctx.memberTypes :=
  List.mem_flatMap.2 ⟨d, List.mem_of_getElem? h, ht⟩

/-- A component is the type without qualifiers, a child, or the type of a member or base. -/
theorem component_cases {ctx : Context} {t c : CType} (h : c ∈ ctx.components t) :
    c = t.unqualified ∨ c ∈ t.children ∨ c ∈ ctx.memberTypes := by
  unfold components at h
  split at h
  · cases t with
    | record q id =>
      simp only [classify] at h
      cases hr : ctx.record? id with
      | none => simp [hr] at h
      | some d =>
        simp only [hr] at h
        exact .inr (.inr (types_subset_memberTypes hr h))
    | _ => simp_all [classify, CType.children]
  · exact .inl (by simpa using h)

/-- **The `closure` is closed under `components`.** -/
theorem desugar_mem_closure_of_component {ctx : Context} {ts : List CType} {t c : CType}
    (ht : t ∈ ctx.closure ts) (hc : c ∈ ctx.components t) : c.desugar ∈ ctx.closure ts := by
  have here : c ∈ ctx.closure ts → c.desugar ∈ ctx.closure ts := fun h => by
    rwa [CType.desugar_of_not_hasSugar c (hasSugar_of_mem_closure h)]
  obtain ⟨s, hs, hp⟩ := List.mem_flatMap.1 ht
  rcases component_cases hc with rfl | hc | hc
  · exact here (List.mem_flatMap.2 ⟨s, hs, CType.unqualified_mem_parts hp⟩)
  · exact here (List.mem_flatMap.2 ⟨s, hs, CType.child_mem_parts hp hc⟩)
  · exact List.mem_flatMap.2 ⟨c, List.mem_append_right _ hc, CType.mem_parts_self _⟩

end Context

end TypeLedger
