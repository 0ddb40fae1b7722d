import TypeLedger.Proofs.Tables.Entries

/-!
# Registered types in an environment

* `Registry.Settled`: a canonical type that the registry knows. Different settled types have
  different identifiers.
* An environment that shows the registry has the record of every settled type: there is one lemma
  for each kind of type.
* `Registry.Clear`: a declaration that goes from every type to types of a lower rank never meets an
  identifier that it has come through.
-/

namespace TypeLedger

/-! ## 1. Ranks -/

namespace CType

mutual

/-- How many nodes a type has. -/
def nodes : CType → Nat
  | null _ | builtin _ _ | record _ _ | enumeration _ _ | dependent _ _ => 1
  | pointer _ _ t | array _ _ t | synonym _ _ t | complex _ t | vector _ _ t => t.nodes + 1
  | function _ t ps _ => t.nodes + nodesAll ps + 1

/-- How many nodes some types have. -/
def nodesAll : List CType → Nat
  | [] => 0
  | t :: ts => t.nodes + nodesAll ts

end

/-- Types are ranked by size, and a type with qualifiers above the same type without. -/
def rank (t : CType) : Nat := 2 * t.nodes + if t.quals.isEmpty then 0 else 1

theorem nodes_withQuals (t : CType) (q : Qualifiers) : (t.withQuals q).nodes = t.nodes := by
  cases t <;> rfl

theorem nodes_le_nodesAll {ts : List CType} (h : t ∈ ts) : t.nodes ≤ nodesAll ts := by
  induction ts with
  | nil => cases h
  | cons u us ih =>
    rw [nodesAll]
    rcases List.mem_cons.1 h with rfl | h
    · omega
    · have := ih h
      omega

theorem rank_unqualified (t : CType) : t.unqualified.rank = 2 * t.nodes := by
  have hq : t.unqualified.quals.isEmpty = true := by
    rw [CType.unqualified, quals_withQuals]
    rfl
  rw [rank, hq, CType.unqualified, nodes_withQuals]
  simp

theorem rank_lt_of_nodes_lt {t u : CType} (h : t.nodes < u.nodes) : t.rank < 2 * u.nodes := by
  unfold rank
  split <;> omega

end CType

theorem Context.classify_eq_record {ctx : Context} {t : CType} {d : RecordDecl}
    (h : ctx.classify t = .record d) : ∃ q id, t = .record q id ∧ ctx.record? id = some d := by
  cases t with
  | record q id =>
    rw [classify] at h
    split at h
    · rename_i hd
      cases h
      exact ⟨q, id, rfl, hd⟩
    · cases h
  | _ => cases h

theorem Context.classify_eq_enumeration {ctx : Context} {t : CType} {name : Option String}
    (h : ctx.classify t = .enumeration name) :
    ∃ q id, t = .enumeration q id ∧ (ctx.enum? id).bind EnumDecl.name = name := by
  cases t with
  | enumeration q id =>
    cases h
    exact ⟨q, id, rfl, rfl⟩
  | record q id =>
    rw [classify] at h
    split at h <;> cases h
  | _ => cases h

theorem Context.components_record {ctx : Context} {id : RecordId} {d : RecordDecl}
    (hd : ctx.record? id = some d) : ctx.components (.record .none id) = d.types := by
  simp [components, CType.quals, classify, hd, Qualifiers.none, Qualifiers.isEmpty]

namespace Registry

/-! ## 2. Settled types -/

/-- A canonical type that the registry knows. -/
structure Settled (r : Registry) (t : CType) : Prop where
  known : r.ledger.Known t
  canonical : t.hasSugar = false
  not_null : t.isNull = false
  proper : t.Proper

variable {r : Registry} {env : Environment} {tagOf : TypeId → Tag}

theorem settled_record {id : RecordId} (h : r.ledger.Known (.record .none id)) :
    r.Settled (.record .none id) :=
  ⟨h, rfl, rfl, fun _ he => nomatch he⟩

theorem settled_enumeration {id : EnumId} (h : r.ledger.Known (.enumeration .none id)) :
    r.Settled (.enumeration .none id) :=
  ⟨h, rfl, rfl, fun _ he => nomatch he⟩

/-- Different `Settled` types have different identifiers. -/
theorem Settled.eq_of_idOf_eq (h : r.Kept) {t u : CType} (ht : r.Settled t) (hu : r.Settled u)
    (hid : r.ledger.idOf t = r.ledger.idOf u) : t = u := by
  have hdt := CType.desugar_of_not_hasSugar t ht.canonical
  have hdu := CType.desugar_of_not_hasSugar u hu.canonical
  have := (h.sound.idOf_eq_iff ht.known hu.known (by rw [hdt]; exact ht.proper)
    (by rw [hdu]; exact hu.proper)).1 hid
  rw [hdt, hdu] at this
  rcases this with h | ⟨h, -⟩
  · exact h
  · rw [ht.not_null] at h
    cases h

/-- A `Settled` type is fundamental or has a row. -/
theorem Settled.cases (hp : r.Kept) (hl : r.Shows env tagOf) {t : CType}
    (ht : r.Settled t) :
    (∃ s, t = .builtin .none s ∧
      env.lookup? (r.ledger.idOf t) = some ⟨r.ledger.idOf t, .none, .reserved s⟩) ∨
    ∃ row ∈ r.ledger.rows, row.type = t ∧ row.id = r.ledger.idOf t ∧
      env.lookup? (r.ledger.idOf t) = some (r.rereadRow row (tagOf row.id)) := by
  cases hp.sound.standing ht.canonical ht.known with
  | null hn _ => rw [ht.not_null] at hn; cases hn
  | row row hm hrt hid => exact .inr ⟨row, hm, hrt, hid, by rw [← hid]; exact hl.row row hm⟩
  | fundamental s hs hid hf _ =>
    refine .inl ⟨s, hs, ?_⟩
    rw [hid] at hf ⊢
    exact hl.fundamental s (ht.proper s hs hf)

theorem Settled.contains (hp : r.Kept) (hl : r.Shows env tagOf) {t : CType}
    (ht : r.Settled t) : env.contains (r.ledger.idOf t) = true := by
  rw [Environment.contains]
  rcases ht.cases hp hl with ⟨s, -, h⟩ | ⟨row, -, -, -, h⟩
  · rw [h]; rfl
  · rw [h]; rfl

/-- A `Settled` type that is no builtin type without qualifiers has a row. -/
theorem Settled.row (hp : r.Kept) (hl : r.Shows env tagOf) {t : CType} (ht : r.Settled t)
    (hb : ∀ s, t ≠ .builtin .none s) :
    ∃ row ∈ r.ledger.rows, row.type = t ∧ row.id = r.ledger.idOf t ∧
      env.lookup? (r.ledger.idOf t) = some (r.rereadRow row (tagOf row.id)) := by
  rcases ht.cases hp hl with ⟨s, hs, -⟩ | h
  · exact absurd hs (hb s)
  · exact h

theorem Settled.known_component (hp : r.Kept) (hl : r.Shows env tagOf) {t c : CType}
    (ht : r.Settled t) (hb : ∀ s, t ≠ .builtin .none s) (hc : c ∈ r.context.components t) :
    r.ledger.Known c := by
  obtain ⟨row, hm, rfl, -, -⟩ := ht.row hp hl hb
  exact hp.closed row hm c hc

/-! ## 3. The records of settled types -/

/-- A base class as a record states it. -/
def edge (r : Registry) (b : BaseDecl) : BaseEdge := ⟨b.access, r.ledger.idOf b.type, b.isVirtual⟩

section

variable (hp : r.Kept) (hl : r.Shows env tagOf)

include hp hl

theorem lookup_qualified {t : CType} (ht : r.Settled t) (hq : t.quals.isEmpty = false) :
    env.lookup? (r.ledger.idOf t) =
      some ⟨r.ledger.idOf t, t.quals, .qualified (r.ledger.idOf t.unqualified)⟩ := by
  obtain ⟨row, -, rfl, hid, hlk⟩ := ht.row hp hl (by rintro s rfl; cases hq)
  rw [hlk, rereadRow, body, if_neg (by rw [hq]; decide), hid]
  rfl

theorem known_unqualified {t : CType} (ht : r.Settled t) : r.ledger.Known t.unqualified := by
  cases hq : t.quals.isEmpty with
  | true =>
    rw [CType.unqualified, ← (Qualifiers.isEmpty_iff _).1 hq, CType.withQuals_quals]
    exact ht.known
  | false =>
    refine ht.known_component hp hl (by rintro s rfl; cases hq) ?_
    rw [Context.components, if_neg (by rw [hq]; decide)]
    exact List.mem_singleton_self _

theorem lookup_builtin {s : String} (hs : Fundamental.Listed s)
    (ht : r.Settled (.builtin .none s)) :
    env.lookup? (r.ledger.idOf (.builtin .none s)) =
      some ⟨r.ledger.idOf (.builtin .none s), .none, .reserved s⟩ := by
  rcases ht.cases hp hl with ⟨s', he, h⟩ | ⟨row, hm, hrt, -, -⟩
  · cases he
    exact h
  · have hcat := hp.sound.row_category row hm
    have hf : Fundamental.isFundamental (Fundamental.idOfSpelling s) = true :=
      (reserved_of_lookup_fundamental (lookup_fundamental hs)).1
    rw [hrt, Context.category?] at hcat
    simp only [CType.quals, Qualifiers.none, Qualifiers.isEmpty, Bool.not_false, Bool.and_self,
      ↓reduceIte, Context.classify, hf] at hcat
    cases hcat

theorem lookup_pointer {k : PointerKind} {t : CType} (ht : r.Settled (.pointer .none k t)) :
    env.lookup? (r.ledger.idOf (.pointer .none k t)) =
      some ⟨r.ledger.idOf (.pointer .none k t), .none, .pointer k (r.ledger.idOf t)⟩ := by
  obtain ⟨row, -, hrt, hid, hlk⟩ := ht.row hp hl (fun _ h => nomatch h)
  rw [hlk, rereadRow, body, hrt, hid]
  rfl

theorem lookup_array {n : ArraySize} {t : CType} (ht : r.Settled (.array .none n t)) :
    env.lookup? (r.ledger.idOf (.array .none n t)) =
      some ⟨r.ledger.idOf (.array .none n t), .none, .array n (r.ledger.idOf t)⟩ := by
  obtain ⟨row, -, hrt, hid, hlk⟩ := ht.row hp hl (fun _ h => nomatch h)
  rw [hlk, rereadRow, body, hrt, hid]
  rfl

theorem lookup_function {t : CType} {ps : List CType} {v : Bool}
    (ht : r.Settled (.function .none t ps v)) :
    env.lookup? (r.ledger.idOf (.function .none t ps v)) =
      some ⟨r.ledger.idOf (.function .none t ps v), .none,
        .function (r.ledger.idOf t) (ps.map fun p => ⟨r.ledger.idOf p, none⟩) v⟩ := by
  obtain ⟨row, -, hrt, hid, hlk⟩ := ht.row hp hl (fun _ h => nomatch h)
  rw [hlk, rereadRow, body, hrt, hid]
  rfl

theorem lookup_record {id : RecordId} {d : RecordDecl} (hd : r.context.record? id = some d)
    (ht : r.Settled (.record .none id)) :
    ∃ row ∈ r.ledger.rows, row.type = .record .none id ∧
      row.id = r.ledger.idOf (.record .none id) ∧
      env.lookup? (r.ledger.idOf (.record .none id)) =
        some ⟨r.ledger.idOf (.record .none id), .none, .aggregate d.key (tagOf row.id)
          (d.isComplete || !((d.members.getD []).map r.member).isEmpty || !(r.bases row.id).isEmpty)
          ((d.members.getD []).map r.member)
          (if d.key = .classKey then r.bases row.id else [])⟩ := by
  obtain ⟨row, hm, hrt, hid, hlk⟩ := ht.row hp hl (fun _ h => nomatch h)
  have hc : r.context.classify (.record .none id) = .record d := by
    rw [Context.classify, hd]
  have hq : (CType.record .none id).quals.isEmpty = true := rfl
  refine ⟨row, hm, hrt, hid, ?_⟩
  rw [hlk, rereadRow, body, hrt, if_pos hq, hc, hid]
  rfl

omit hl in
/-- The `bases` of a struct, union or class are those that it declares, unless some have been stated
on top. -/
theorem bases_record (ha : r.added = {}) {row : Row} (hm : row ∈ r.ledger.rows) {id : RecordId}
    {d : RecordDecl} (hrt : row.type = .record .none id) (hd : r.context.record? id = some d) :
    r.bases row.id = d.bases.map r.edge := by
  rw [hp.bases_eq ha hm, declaredIn, if_pos (by rw [hrt]; rfl), hrt, Context.classify, hd]
  rfl

theorem lookup_enumeration {id : EnumId} (ht : r.Settled (.enumeration .none id)) :
    ∃ row ∈ r.ledger.rows, row.type = .enumeration .none id ∧
      row.id = r.ledger.idOf (.enumeration .none id) ∧
      env.lookup? (r.ledger.idOf (.enumeration .none id)) =
        some ⟨r.ledger.idOf (.enumeration .none id), .none, .enumeration (tagOf row.id)⟩ := by
  obtain ⟨row, hm, hrt, hid, hlk⟩ := ht.row hp hl (fun _ h => nomatch h)
  refine ⟨row, hm, hrt, hid, ?_⟩
  rw [hlk, rereadRow, body, hrt, hid]
  rfl

end

/-! ## 4. The way of a declaration -/

/-- The identifiers met on the way are those of settled types of a higher rank than `n`. -/
def Clear (r : Registry) (path : List TypeId) (n : Nat) : Prop :=
  ∀ i ∈ path, ∃ u, r.Settled u ∧ r.ledger.idOf u = i ∧ n < u.rank

theorem clear_nil (r : Registry) (n : Nat) : r.Clear [] n := by
  intro i hi
  cases hi

theorem Clear.mono {path : List TypeId} {m n : Nat} (h : r.Clear path n) (hmn : m ≤ n) :
    r.Clear path m := by
  intro i hi
  obtain ⟨u, hu, hid, hlt⟩ := h i hi
  exact ⟨u, hu, hid, Nat.lt_of_le_of_lt hmn hlt⟩

theorem Clear.cons {path : List TypeId} {n : Nat} (h : r.Clear path n) {t : CType}
    (ht : r.Settled t) (hn : n < t.rank) : r.Clear (r.ledger.idOf t :: path) n := by
  intro i hi
  rcases List.mem_cons.1 hi with rfl | hi
  · exact ⟨t, ht, rfl, hn⟩
  · exact h i hi

/-- A settled type has not been met on a way that is `Clear` for it. -/
theorem Clear.not_mem (hk : r.Kept) {path : List TypeId} {n : Nat} (h : r.Clear path n)
    {t : CType} (ht : r.Settled t) (hn : t.rank ≤ n) : r.ledger.idOf t ∉ path := by
  intro hm
  obtain ⟨u, hu, hid, hlt⟩ := h _ hm
  obtain rfl := hu.eq_of_idOf_eq hk ht hid
  omega

end Registry

end TypeLedger
