import TypeLedger.Proofs.Printing.Closed

/-!
# One step of a declaration

* `Registry.SpeltIn`: the registry knows a canonical type that declarations can spell.
* `SpeltIn.declareWith_unqualified` and the lemmas behind it, one for each kind of type: what the
  declaration of a registered type does first, and where it goes from there. The way stays clear
  because every step goes to a type of a lower rank.
-/

namespace TypeLedger

namespace Registry

/-! ## 1. Known types and their parts -/

/-- A canonical type that declarations can spell and that the registry knows. -/
structure SpeltIn (V : Vocabulary) (r : Registry) (t : CType) : Prop where
  spelt : t.Spelt V r.context
  canonical : t.hasSugar = false
  known : r.ledger.Known t

variable {V : Vocabulary} {r : Registry} {env : Environment} {tagOf : TypeId → Tag}
  {t : CType} {q : Qualifiers}

theorem SpeltIn.settled (h : r.SpeltIn V t) : r.Settled t :=
  settled_of_spelt h.spelt h.canonical h.known

section

variable (hp : r.Kept) (hl : r.Shows env tagOf)

include hp hl

theorem SpeltIn.unqualified (h : r.SpeltIn V t) : r.SpeltIn V t.unqualified :=
  ⟨h.spelt.unqualified, (CType.hasSugar_withQuals _ _).trans h.canonical,
    known_unqualified hp hl h.settled⟩

theorem SpeltIn.component (h : r.SpeltIn V t) (hb : ∀ s, t ≠ .builtin .none s) {c : CType}
    (hs : c.Spelt V r.context) (hc : c.hasSugar = false) (hm : c ∈ r.context.components t) :
    r.SpeltIn V c :=
  ⟨hs, hc, h.settled.known_component hp hl hb hm⟩

theorem SpeltIn.pointee {k : PointerKind} (h : r.SpeltIn V (.pointer q k t)) : r.SpeltIn V t := by
  have hu := h.unqualified hp hl
  cases h.spelt with
  | pointer _ ht =>
    exact hu.component hp hl (by rintro s ⟨⟩) ht h.canonical (List.mem_singleton_self _)

theorem SpeltIn.element {n : ArraySize} (h : r.SpeltIn V (.array q n t)) : r.SpeltIn V t := by
  have hu := h.unqualified hp hl
  cases h.spelt with
  | array ht =>
    exact hu.component hp hl (by rintro s ⟨⟩) ht h.canonical (List.mem_singleton_self _)

theorem SpeltIn.signature {ps : List CType} {v : Bool} (h : r.SpeltIn V (.function q t ps v)) :
    r.SpeltIn V t ∧ ∀ p ∈ ps, r.SpeltIn V p := by
  have hu := h.unqualified hp hl
  have hcomp : r.context.components (CType.function q t ps v).unqualified = t :: ps := rfl
  have hsugar := h.canonical
  simp only [CType.hasSugar, CType.anySugar_eq_any, Bool.or_eq_false_iff,
    List.any_eq_false, Bool.not_eq_true] at hsugar
  cases h.spelt with
  | function ht hps =>
    refine ⟨hu.component hp hl (by rintro s ⟨⟩) ht hsugar.1 ?_, fun p hm =>
      hu.component hp hl (by rintro s ⟨⟩) (hps p hm) (hsugar.2 p hm) ?_⟩
    · rw [hcomp]
      exact List.mem_cons_self
    · rw [hcomp]
      exact List.mem_cons_of_mem _ hm

/-- Without qualifiers a type is looked up once: its own record says how tight it binds. -/
theorem SpeltIn.bindsTighter_unqualified (h : r.SpeltIn V t) (n : Nat) :
    env.bindsTighter (n + 1) (r.ledger.idOf t.unqualified) = t.isTight := by
  have hu := (h.unqualified hp hl).settled
  rw [Environment.bindsTighter]
  cases h.spelt with
  | builtin hs =>
    rw [CType.unqualified, CType.withQuals] at hu ⊢
    rw [Environment.body?_of_lookup (lookup_builtin hp hl (CType.listed_of_canonical hs) hu)]
    rfl
  | @record q id hid =>
    have hd : r.context.record? id = some (r.context.records[id.index]) :=
      List.getElem?_eq_getElem hid
    rw [CType.unqualified, CType.withQuals] at hu ⊢
    obtain ⟨row, -, -, -, hlk⟩ := lookup_record hp hl hd hu
    rw [Environment.body?_of_lookup hlk]
    rfl
  | enumeration hid =>
    rw [CType.unqualified, CType.withQuals] at hu ⊢
    obtain ⟨row, -, -, -, hlk⟩ := lookup_enumeration hp hl hu
    rw [Environment.body?_of_lookup hlk]
    rfl
  | pointer hk ht =>
    rw [CType.unqualified, CType.withQuals] at hu ⊢
    rw [Environment.body?_of_lookup (lookup_pointer hp hl hu)]
    rfl
  | array ht =>
    rw [CType.unqualified, CType.withQuals] at hu ⊢
    rw [Environment.body?_of_lookup (lookup_array hp hl hu)]
    rfl
  | function ht hps =>
    rw [CType.unqualified, CType.withQuals] at hu ⊢
    rw [Environment.body?_of_lookup (lookup_function hp hl hu)]
    rfl
  | synonym ht => cases h.canonical
  | complex hV ht =>
    obtain ⟨row, -, hrt, -, hlk⟩ := hu.row hp hl (by rintro s ⟨⟩)
    rw [Environment.body?_of_lookup hlk, rereadRow, Registry.body, hrt]
    rfl

/-- Parentheses are asked for exactly around what binds tighter. -/
theorem SpeltIn.bindsTighter_eq (h : r.SpeltIn V t) (n : Nat) :
    env.bindsTighter (n + 2) (r.ledger.idOf t) = t.isTight := by
  cases hq : t.quals.isEmpty with
  | true =>
    have hself : t.unqualified = t := by
      rw [CType.unqualified, ← (Qualifiers.isEmpty_iff _).1 hq, CType.withQuals_quals]
    rw [← h.bindsTighter_unqualified hp hl (n + 1), hself]
  | false =>
    rw [Environment.bindsTighter,
      Environment.body?_of_lookup (lookup_qualified hp hl h.settled hq)]
    exact h.bindsTighter_unqualified hp hl n

/-! ## 2. Steps -/

/-- The qualifiers of a type join those on the way, and the declaration goes on with the type
without them. -/
theorem SpeltIn.declareWith_unqualified (h : r.SpeltIn V t) (q : Qualifiers) {path : List TypeId}
    (hc : r.Clear path t.rank) :
    ∃ path', r.Clear path' (2 * t.nodes) ∧ ∀ d, env.declareWith path q (r.ledger.idOf t) d =
      env.declareWith path' (q.union t.quals) (r.ledger.idOf t.unqualified) d := by
  have ht := h.settled
  cases hq : t.quals.isEmpty with
  | true =>
    have hnone := (Qualifiers.isEmpty_iff _).1 hq
    have hself : t.unqualified = t := by
      rw [CType.unqualified, ← hnone, CType.withQuals_quals]
    have hrank : t.rank = 2 * t.nodes := by
      rw [CType.rank, if_pos hq, Nat.add_zero]
    refine ⟨path, hrank ▸ hc, fun d => ?_⟩
    rw [hself, hnone, Qualifiers.union_none]
  | false =>
    have hlt : 2 * t.nodes < t.rank := by
      rw [CType.rank, hq]
      simp
    refine ⟨_, (hc.mono (Nat.le_of_lt hlt)).cons ht hlt, fun d => ?_⟩
    rw [Environment.declareWith_eq (lookup_qualified hp hl ht hq)
      (hc.not_mem hp ht (Nat.le_refl _))]
    exact if_pos ((h.unqualified hp hl).settled.contains hp hl)

/-- A type without qualifiers has not been met on a way that is `Clear` for it. -/
theorem SpeltIn.not_mem (h : r.SpeltIn V t) {path : List TypeId}
    (hc : r.Clear path (2 * t.nodes)) : r.ledger.idOf t.unqualified ∉ path :=
  hc.not_mem hp (h.unqualified hp hl).settled (Nat.le_of_eq t.rank_unqualified)

theorem SpeltIn.declareWith_builtin {s : String} (h : r.SpeltIn V (.builtin q s)) (p : Qualifiers)
    {path : List TypeId} (hc : r.Clear path (2 * (CType.builtin q s).nodes)) (d : String) :
    env.declareWith path p (r.ledger.idOf (CType.builtin q s).unqualified) d =
      pure (Fragment.ofWords [p.spelling, s, d]) := by
  have hu := (h.unqualified hp hl).settled
  have hs : ∃ ws, BuiltinWord.canonical? ws = some s := by
    cases h.spelt with
    | builtin hs => exact hs
  have hstep : env.declareWith _ p _ d = _ := Environment.declareWith_eq
    (lookup_builtin hp hl (CType.listed_of_canonical hs) hu) (h.not_mem hp hl hc)
  rwa [Qualifiers.union_none] at hstep

/-- A record is declared by its keyword and its tag. -/
theorem SpeltIn.declareWith_record {id : RecordId} (h : r.SpeltIn V (.record q id)) :
    ∃ row ∈ r.ledger.rows, ∃ d, row.type = .record .none id ∧ r.context.record? id = some d ∧
      (∀ K, env.recordLabel K (r.ledger.idOf (.record .none id)) =
        (d.key, (K.current? (tagOf row.id)).getD "")) ∧
      ∀ (p : Qualifiers) {path : List TypeId}, r.Clear path (2 * (CType.record q id).nodes) →
        ∀ x, env.declareWith path p (r.ledger.idOf (CType.record q id).unqualified) x =
          Environment.taggedDeclaration p d.key.word (tagOf row.id) x := by
  have hu := (h.unqualified hp hl).settled
  have hid : id.index < r.context.records.length := by
    cases h.spelt with
    | record hid => exact hid
  have hd : r.context.record? id = some (r.context.records[id.index]) :=
    List.getElem?_eq_getElem hid
  obtain ⟨row, hm, hrt, -, hlk⟩ := lookup_record hp hl hd hu
  refine ⟨row, hm, _, hrt, hd, fun K => Environment.recordLabel_of_lookup hlk rfl K,
    fun p path hc x => ?_⟩
  have hstep : env.declareWith _ p _ x = _ :=
    Environment.declareWith_eq hlk (h.not_mem hp hl hc)
  rwa [Qualifiers.union_none] at hstep

/-- An enumeration is declared by its keyword and its tag. -/
theorem SpeltIn.declareWith_enumeration {id : EnumId} (h : r.SpeltIn V (.enumeration q id)) :
    ∃ row ∈ r.ledger.rows, row.type = .enumeration .none id ∧
      (∀ K, env.enumLabel K (r.ledger.idOf (.enumeration .none id)) =
        (K.current? (tagOf row.id)).getD "") ∧
      ∀ (p : Qualifiers) {path : List TypeId}, r.Clear path (2 * (CType.enumeration q id).nodes) →
        ∀ x, env.declareWith path p (r.ledger.idOf (CType.enumeration q id).unqualified) x =
          Environment.taggedDeclaration p "enum" (tagOf row.id) x := by
  have hu := (h.unqualified hp hl).settled
  obtain ⟨row, hm, hrt, -, hlk⟩ := lookup_enumeration hp hl hu
  refine ⟨row, hm, hrt, fun K => Environment.enumLabel_of_lookup hlk rfl K, fun p path hc x => ?_⟩
  have hstep : env.declareWith _ p _ x = _ :=
    Environment.declareWith_eq hlk (h.not_mem hp hl hc)
  rwa [Qualifiers.union_none] at hstep

/-- There is no declaration of a complex type. -/
theorem SpeltIn.declareWith_complex (h : r.SpeltIn V (.complex q t)) (p : Qualifiers)
    {path : List TypeId} (hc : r.Clear path (2 * (CType.complex q t).nodes)) (d : String) :
    env.declareWith path p (r.ledger.idOf (CType.complex q t).unqualified) d =
      pure (Fragment.incomplete d) := by
  have hu := (h.unqualified hp hl).settled
  obtain ⟨row, -, hrt, -, hlk⟩ := hu.row hp hl (by rintro s ⟨⟩)
  rw [Environment.declareWith_eq hlk (h.not_mem hp hl hc), rereadRow, Registry.body, hrt]
  rfl

/-- The way stays `Clear` for what is smaller. -/
theorem SpeltIn.clear_cons (h : r.SpeltIn V t) {path : List TypeId}
    (hc : r.Clear path (2 * t.nodes)) {c : CType} (hlt : c.nodes < t.nodes) :
    r.Clear (r.ledger.idOf t.unqualified :: path) c.rank := by
  have hrank : c.rank < 2 * t.nodes := CType.rank_lt_of_nodes_lt hlt
  exact (hc.mono (Nat.le_of_lt hrank)).cons (h.unqualified hp hl).settled
    (by rw [t.rank_unqualified]; exact hrank)

/-- A pointer puts its sigil in front of the declarator, and goes on with what it points at. -/
theorem SpeltIn.declareWith_pointer {k : PointerKind} (h : r.SpeltIn V (.pointer q k t))
    (p : Qualifiers) {path : List TypeId} (hc : r.Clear path (2 * (CType.pointer q k t).nodes)) :
    ∃ path', r.Clear path' t.rank ∧
      ∀ d, env.declareWith path p (r.ledger.idOf (CType.pointer q k t).unqualified) d =
        env.declareWith path' .none (r.ledger.idOf t) (pointerText t.isTight k p d) := by
  have hu := (h.unqualified hp hl).settled
  have ht := h.pointee hp hl
  refine ⟨_, h.clear_cons hp hl hc (Nat.lt_succ_self _), fun d => ?_⟩
  have hpointer : env.pointerDeclarator k p (r.ledger.idOf t) d = pointerText t.isTight k p d := by
    rw [Environment.pointerDeclarator, Environment.parenthesisDepth, ht.bindsTighter_eq hp hl 6]
    rfl
  have hstep : env.declareWith _ p _ d = _ :=
    Environment.declareWith_eq (lookup_pointer hp hl hu) (h.not_mem hp hl hc)
  simp only [ht.settled.contains hp hl, ↓reduceIte, Qualifiers.union_none, hpointer] at hstep
  exact hstep

/-- An array puts its bounds behind the declarator, and goes on with its element, which takes its
qualifiers. -/
theorem SpeltIn.declareWith_array {n : ArraySize} (h : r.SpeltIn V (.array q n t))
    (p : Qualifiers) {path : List TypeId} (hc : r.Clear path (2 * (CType.array q n t).nodes)) :
    ∃ path', r.Clear path' t.rank ∧
      ∀ d, env.declareWith path p (r.ledger.idOf (CType.array q n t).unqualified) d =
        env.declareWith path' p (r.ledger.idOf t) (Environment.arrayDeclarator n d) := by
  have hu := (h.unqualified hp hl).settled
  refine ⟨_, h.clear_cons hp hl hc (Nat.lt_succ_self _), fun d => ?_⟩
  have hstep : env.declareWith _ p _ d = _ :=
    Environment.declareWith_eq (lookup_array hp hl hu) (h.not_mem hp hl hc)
  simp only [(h.element hp hl).settled.contains hp hl, ↓reduceIte, Qualifiers.union_none] at hstep
  exact hstep

/-- A function puts its parameters behind the declarator, and goes on with its result. Its
qualifiers are dropped. -/
theorem SpeltIn.declareWith_function {ps : List CType} {v : Bool}
    (h : r.SpeltIn V (.function q t ps v)) (p : Qualifiers) {path : List TypeId}
    (hc : r.Clear path (2 * (CType.function q t ps v).nodes)) :
    ∃ path', r.Clear path' t.rank ∧ (∀ c ∈ ps, r.Clear path' c.rank) ∧
      ∀ d, env.declareWith path p (r.ledger.idOf (CType.function q t ps v).unqualified) d =
        env.declareParams path' (ps.map fun c => ⟨r.ledger.idOf c, none⟩) >>= fun texts =>
          env.declareWith path' .none (r.ledger.idOf t)
            (Environment.functionDeclarator texts v d) := by
  have hu := (h.unqualified hp hl).settled
  obtain ⟨hst, hsps⟩ := h.signature hp hl
  have hknown : env.signatureKnown (r.ledger.idOf t)
      (ps.map fun c => ⟨r.ledger.idOf c, none⟩) = true := by
    rw [Environment.signatureKnown, hst.settled.contains hp hl, Bool.true_and,
      List.all_map, List.all_eq_true]
    exact fun c hm => (hsps c hm).settled.contains hp hl
  refine ⟨_, h.clear_cons hp hl hc (by rw [CType.nodes]; omega),
    fun c hm => h.clear_cons hp hl hc ?_, fun d => ?_⟩
  · have := CType.nodes_le_nodesAll hm
    rw [CType.nodes]
    omega
  · have hstep : env.declareWith _ p _ d = _ :=
      Environment.declareWith_eq (lookup_function hp hl hu) (h.not_mem hp hl hc)
    exact hstep.trans (if_pos hknown)

end

end Registry

end TypeLedger
