import TypeLedger.Proofs.Registration.Exchange
import TypeLedger.Proofs.Renaming.Entries

/-!
# Registries that know the same types

* `TypeRecord.carried`: a record with its identifiers and its serial number exchanged.
* `Registry.body_renamed`: what is said of a type depends on the identifiers of its components.
* `Registry.Matched`: two registries that have registered the same types of one source.
* `Registry.SameUpTo`: what one registry says of its types is what the other says of them, under
  other identifiers and other serial numbers.
* `Matched.sameUpTo`: matched registries are the same up to that.
-/

namespace TypeLedger

/-! ## 1. Records under other identifiers -/

/-- A body with `g` put on the serial number of its tag. -/
def TypeBody.renumbered (g : Nat → Nat) : TypeBody → TypeBody
  | aggregate key tag complete members bases =>
    aggregate key (tag.renumbered g) complete members bases
  | enumeration tag => enumeration (tag.renumbered g)
  | body => body

/-- A record with `f` put on its identifier and on all that it refers to, and `g` on its serial
number. -/
def TypeRecord.carried (f : TypeId → TypeId) (g : Nat → Nat) (r : TypeRecord) : TypeRecord :=
  ⟨f r.id, r.quals, (r.body.renamed f).renumbered g⟩

theorem TypeBody.carried_id (b : TypeBody) : (b.renamed id).renumbered id = b := by
  have hparam : Param.renamed id = id := rfl
  have hmember : Member.renamed id = id := rfl
  have hedge : BaseEdge.renamed id = id := rfl
  have htag : ∀ t : Tag, t.renumbered id = t := fun t => by cases t <;> rfl
  cases b <;> simp [renamed, renumbered, hparam, hmember, hedge, htag]

/-- The entry of a `carried` record states the identifiers that are put in, and the names that there
are. -/
theorem Entry.ofRecord_carried (f : TypeId → TypeId) (g : Nat → Nat) {k k' : Naming}
    (kind : String) (bases : List BaseEdge) {r : TypeRecord}
    (hname : ∀ tag, r.body.tag? = some tag → k'.current? (tag.renumbered g) = k.current? tag) :
    Entry.ofRecord id k' kind (bases.map (BaseEdge.renamed f)) (r.carried f g) =
      Entry.ofRecord f k kind bases r := by
  have hbases : (bases.map (BaseEdge.renamed f)).map
      (fun e => BaseEntry.ofEdge { e with base := id e.base }) =
        bases.map fun e => BaseEntry.ofEdge { e with base := f e.base } := by
    rw [List.map_map]
    rfl
  unfold Entry.ofRecord
  rw [hbases]
  obtain ⟨i, q, body⟩ := r
  cases body with
  | function result params variadic =>
    simp only [TypeRecord.carried, TypeBody.renamed, TypeBody.renumbered, List.map_map]
    rfl
  | aggregate key tag complete members own =>
    simp only [TypeRecord.carried, TypeBody.renamed, TypeBody.renumbered, TypeRecord.attributes,
      hname tag rfl, List.map_map]
    rfl
  | enumeration tag =>
    simp only [TypeRecord.carried, TypeBody.renamed, TypeBody.renumbered, TypeRecord.attributes,
      hname tag rfl]
    rfl
  | _ => rfl

namespace Registry

/-! ## 2. What is said of a type -/

section

variable {r r' : Registry} {row row' : Row} {f : TypeId → TypeId}
  (hctx : r'.context = r.context) (ht : row'.type = row.type)
  (hid : ∀ c ∈ r.context.components row.type, r'.ledger.idOf c = f (r.ledger.idOf c))
include hctx ht hid

/-- The bases that a type declares depend on the identifiers of its components. -/
theorem declaredIn_renamed :
    r'.declaredIn row' = (r.declaredIn row).map (BaseEdge.renamed f) := by
  unfold declaredIn
  unfold Context.components at hid
  rw [ht, hctx]
  split
  · rename_i hq
    rw [if_pos hq] at hid
    cases hs : r.context.classify row.type with
    | record d =>
      simp only [hs] at hid ⊢
      rw [List.map_map]
      refine List.map_congr_left fun b hb => ?_
      rw [hid b.type (List.mem_append_right _ (List.mem_map_of_mem hb))]
      rfl
    | _ => rfl
  · rfl

/-- **What is said of a type** (`body`) depends on the identifiers of its components, on its tag, on
its bases and on nothing else. -/
theorem body_renamed {g : Nat → Nat}
    (hfit : Ledger.RowTagFits (r.context.tagName? row.type) row.tag)
    (htag : row'.tag = row.tag.map (Tag.renumbered g))
    (hbases : r'.bases row'.id = (r.bases row.id).map (BaseEdge.renamed f)) :
    r'.body row' = ((r.body row).renamed f).renumbered g := by
  unfold body
  unfold Context.components at hid
  unfold Context.tagName? at hfit
  rw [ht, hctx, htag, hbases]
  split
  · rename_i hq
    rw [if_pos hq] at hid hfit
    cases hs : r.context.classify row.type with
    | builtin | other => rfl
    | pointer k t =>
      simp only [hs] at hid ⊢
      rw [hid t (List.mem_singleton_self _)]
      rfl
    | array n t =>
      simp only [hs] at hid ⊢
      rw [hid t (List.mem_singleton_self _)]
      rfl
    | function t ps v =>
      simp only [hs] at hid ⊢
      have hps : (ps.map fun p => (⟨r'.ledger.idOf p, none⟩ : Param)) =
          (ps.map fun p => (⟨r.ledger.idOf p, none⟩ : Param)).map (Param.renamed f) := by
        rw [List.map_map]
        refine List.map_congr_left fun p hp => ?_
        rw [hid p (List.mem_cons_of_mem _ hp)]
        rfl
      rw [hid t List.mem_cons_self, hps]
      rfl
    | record d =>
      simp only [hs] at hid hfit ⊢
      have hms : (d.members.getD []).map r'.member =
          ((d.members.getD []).map r.member).map (Member.renamed f) := by
        rw [List.map_map]
        refine List.map_congr_left fun m hmem => ?_
        rw [member, hid m.type (List.mem_append_left _ (List.mem_map_of_mem hmem))]
        rfl
      cases hrow : row.tag with
      | none => rw [hrow] at hfit; exact hfit.elim
      | some tag =>
        rw [hms]
        simp only [TypeBody.renamed, TypeBody.renumbered, Option.map_some, Option.getD_some]
        split <;> rfl
    | enumeration name =>
      simp only [hs] at hfit
      cases hrow : row.tag with
      | none => rw [hrow] at hfit; exact hfit.elim
      | some tag => rfl
  · rename_i hq
    rw [if_neg hq] at hid
    rw [hid _ (List.mem_singleton_self _)]
    rfl

end

/-! ## 3. Registries with the same types -/

/-- What `r'` says of its types is what `r` says of them, with `f` put on identifiers and `g` on the
serial numbers of aggregates without a tag. -/
structure SameUpTo (f : Equiv.Perm TypeId) (g : Nat → Nat) (r r' : Registry) : Prop where
  category : ∀ c : Category, ∀ n, ∃ m, f (c.id n) = c.id m
  fundamental : ∀ id, Fundamental.isFundamental id = true → f id = id
  null : f .null = .null
  lookup? : ∀ t, r'.lookup? t = (r.lookup? t).map f
  record? : ∀ id, r'.record? (f id) = (r.record? id).map (TypeRecord.carried f g)
  bases : ∀ id, r'.bases (f id) = (r.bases id).map (BaseEdge.renamed f)
  serials : ∀ a ∈ r.ledger.rows, ∀ b ∈ r.ledger.rows, ∀ s t, a.tag = some (.anonymous s) →
    b.tag = some (.anonymous t) → g s = g t → s = t

variable {r r' : Registry}

/-- What a registry is that has registered some types and done nothing else. -/
structure Gathered (r : Registry) : Prop extends r.Kept where
  added : r.added = {}
  tagged : r.ledger.Tagged
  spellings : r.ledger.SpellingsKnown
  listed : ∀ p ∈ r.ledger.fundamentals, Fundamental.Listed p.2
  /-- No name has been made up for a row. -/
  unnamed : ∀ row ∈ r.ledger.rows, ∀ s, row.tag = some (.anonymous s) →
    r.ledger.naming.given.lookup s = none

/-- Two such registries of one source that know the same types. -/
structure Matched (r r' : Registry) : Prop where
  left : r.Gathered
  right : r'.Gathered
  context : r'.context = r.context
  peers : Ledger.Peers r.context r.ledger r'.ledger

/-! ## 4. What they say -/

namespace Matched

theorem symm (h : Matched r r') : Matched r' r :=
  ⟨h.right, h.left, h.context.symm, by rw [h.context]; exact h.peers.symm⟩

/-- The permutation of identifiers. -/
def ids (h : Matched r r') : Equiv.Perm TypeId := h.peers.exchange

/-- What the second registry has for a serial number of the first. -/
def serial (_ : Matched r r') : Nat → Nat := r.ledger.exchangedSerial r'.ledger

/-- The row of the same type. -/
theorem row (h : Matched r r') {row : Row} (hm : row ∈ r.ledger.rows) :
    ∃ row' ∈ r'.ledger.rows, row'.type = row.type ∧ row'.id = h.ids row.id ∧
      row'.tag = row.tag.map (Tag.renumbered h.serial) := by
  obtain ⟨row', hm', ht, -, hid⟩ := h.peers.row hm
  exact ⟨row', hm', ht, by rw [hid]; exact (h.peers.exchange_row hm).symm,
    h.peers.tag h.left.tagged hm hm' ht⟩

/-- What is not called like a row is called like no row of the other registry, and stays. -/
theorem ids_of_row?_eq_none (h : Matched r r') {id : TypeId} (hn : r.row? id = none) :
    h.ids id = id ∧ r'.row? id = none := by
  have hno : ¬∃ row ∈ r.ledger.rows, row.id = id := by
    rintro ⟨row, hm, rfl⟩
    rw [h.left.row?_of_mem hm] at hn
    cases hn
  refine ⟨Ledger.exchanged_of_ne hno _, List.find?_eq_none.2 fun row hm he => ?_⟩
  exact hno (h.peers.row_id_iff.2 ⟨row, hm, by simpa using he⟩)

/-- What the record of a row refers to has the other identifiers. -/
theorem idOf_component (h : Matched r r') {row : Row} (hm : row ∈ r.ledger.rows) {c : CType}
    (hc : c ∈ r.context.components row.type) : r'.ledger.idOf c = h.ids (r.ledger.idOf c) :=
  (h.peers.exchange_idOf (h.left.closed row hm c hc)).symm

theorem declaredIn (h : Matched r r') {row row' : Row} (hm : row ∈ r.ledger.rows)
    (ht : row'.type = row.type) :
    r'.declaredIn row' = (r.declaredIn row).map (BaseEdge.renamed h.ids) :=
  declaredIn_renamed h.context ht fun _ => h.idOf_component hm

/-- **The bases of a type are those of the same type** in registries that are `Matched`, in the same
order. -/
theorem bases (h : Matched r r') (id : TypeId) :
    r'.bases (h.ids id) = (r.bases id).map (BaseEdge.renamed h.ids) := by
  cases hrow : r.row? id with
  | none =>
    obtain ⟨hid, hrow'⟩ := h.ids_of_row?_eq_none hrow
    rw [hid, Registry.bases, Registry.bases, declaredBases, declaredBases, hrow, hrow',
      h.left.added, h.right.added]
    rfl
  | some row =>
    obtain ⟨hm, rfl⟩ := mem_of_row? hrow
    obtain ⟨row', hm', ht, hid, -⟩ := h.row hm
    rw [← hid, h.right.bases_eq h.right.added hm', h.left.bases_eq h.left.added hm,
      h.declaredIn hm ht]

/-- **What is known of a type is known of the same type.** -/
theorem body (h : Matched r r') {row row' : Row} (hm : row ∈ r.ledger.rows)
    (ht : row'.type = row.type) (hid : row'.id = h.ids row.id)
    (htag : row'.tag = row.tag.map (Tag.renumbered h.serial)) :
    r'.body row' = ((r.body row).renamed h.ids).renumbered h.serial := by
  have hbases : r'.bases row'.id = (r.bases row.id).map (BaseEdge.renamed h.ids) := by
    rw [hid]
    exact h.bases row.id
  exact body_renamed h.context ht (fun _ => h.idOf_component hm) (h.left.sound.row_tag row hm)
    htag hbases

theorem rowRecord (h : Matched r r') {row row' : Row} (hm : row ∈ r.ledger.rows)
    (ht : row'.type = row.type) (hid : row'.id = h.ids row.id)
    (htag : row'.tag = row.tag.map (Tag.renumbered h.serial)) :
    r'.rowRecord row' = (r.rowRecord row).carried h.ids h.serial := by
  rw [Registry.rowRecord, h.body hm ht hid htag, ht, hid]
  rfl

/-- A fundamental type that one registry has met has been met by the other, in the same spelling. -/
theorem fundamental_of_lookup (h : Matched r r') {id : TypeId} {s : String}
    (hl : r.ledger.fundamentals.lookup id = some s) :
    r'.ledger.fundamentals.lookup id = some s := by
  have hp := Keyed.mem_of_lookup hl
  obtain ⟨hid, hf, hmemo⟩ := h.left.spellings _ hp
  have hk := ((h.peers.known _).1 (Ledger.known_of_lookup hmemo)).lookup rfl
  rw [hid] at hf
  have hcat : r.context.category? (.builtin .none s) = none := if_pos hf
  obtain ⟨hid', hhas⟩ := h.peers.right.fundamental _ _ hk rfl hcat
  rw [hid', Keyed.has] at hhas
  obtain ⟨s', hs'⟩ := Option.isSome_iff_exists.1 hhas
  have hp' := Keyed.mem_of_lookup hs'
  have hss : s' = s := Fundamental.eq_of_idOfSpelling_eq (h.right.listed _ hp')
    (h.left.listed _ hp) (h.right.spellings _ hp').1.symm
  subst hss
  have : Fundamental.idOfSpelling s' = id := hid.symm
  rw [← this]
  exact hs'

theorem fundamentals_lookup (h : Matched r r') (id : TypeId) :
    r'.ledger.fundamentals.lookup id = r.ledger.fundamentals.lookup id :=
  Option.ext fun _ => ⟨h.symm.fundamental_of_lookup, h.fundamental_of_lookup⟩

/-- **The record of a type is `carried` to that of the same type.** -/
theorem record? (h : Matched r r') (id : TypeId) :
    r'.record? (h.ids id) = (r.record? id).map (TypeRecord.carried h.ids h.serial) := by
  cases hrow : r.row? id with
  | none =>
    obtain ⟨hid, hrow'⟩ := h.ids_of_row?_eq_none hrow
    rw [hid, Registry.record?, Registry.record?, hrow, hrow', h.fundamentals_lookup]
    cases r.ledger.fundamentals.lookup id with
    | none => rfl
    | some s =>
      show some _ = some _
      rw [TypeRecord.carried, hid]
      rfl
  | some row =>
    obtain ⟨hm, rfl⟩ := mem_of_row? hrow
    obtain ⟨row', hm', ht, hid, htag⟩ := h.row hm
    rw [← hid, Registry.record?, Registry.record?, hrow, h.right.row?_of_mem hm']
    exact congrArg some (h.rowRecord hm ht hid htag)

theorem lookup? (h : Matched r r') (t : CType) : r'.lookup? t = (r.lookup? t).map h.ids := by
  cases hn : t.isNull with
  | true =>
    have hnone : ∀ {l : Ledger}, (∀ t id, l.memo.lookup t = some id → t.isNull = false) →
        l.memo.lookup t = none := by
      intro l hl
      cases hlt : l.memo.lookup t with
      | none => rfl
      | some id =>
        have := hl t id hlt
        rw [hn] at this
        cases this
    rw [Registry.lookup?, Registry.lookup?, hnone h.peers.left.not_null,
      hnone h.peers.right.not_null]
    rfl
  | false =>
    cases hl : r.lookup? t with
    | some id =>
      have hk := Ledger.known_of_lookup hl
      have hid := h.peers.exchange_idOf hk
      rw [Ledger.idOf_of_lookup hl] at hid
      rw [Option.map_some]
      exact (((h.peers.known t).1 hk).lookup hn).trans (congrArg some hid.symm)
    | none =>
      cases hl' : r'.lookup? t with
      | none => rfl
      | some id =>
        have hk := ((h.peers.known t).2 (Ledger.known_of_lookup hl')).lookup hn
        rw [Registry.lookup?, hk] at hl
        cases hl

theorem sameUpTo (h : Matched r r') : SameUpTo h.ids h.serial r r' where
  category := h.peers.exchange_numbered
  fundamental id hf := by
    refine h.peers.exchange_of_ne fun c n he => ?_
    rw [← he, Fundamental.not_isFundamental_id] at hf
    cases hf
  null := h.peers.exchange_of_ne Category.id_ne_null
  lookup? := h.lookup?
  record? := h.record?
  bases := h.bases
  serials a ha b hb s t hs ht :=
    h.peers.exchangedSerial_inj h.left.tagged h.right.tagged ha hb hs ht

end Matched

end Registry

end TypeLedger
