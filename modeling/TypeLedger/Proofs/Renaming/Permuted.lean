import TypeLedger.Proofs.Renaming.Carried

/-!
# The order of registration

* `Registry.peers_after`: two registries that register the same types, each in its own order, know
  the same types.
* `Registry.matched_after`: they are matched.
* `Matched.perm_types`: the tables of matched registries list the same entries, under other
  identifiers and in another order.
* `Registry.order_only_renames`: the order of registration decides about identifiers only.
-/

namespace TypeLedger

namespace Registry

variable {r r' : Registry}

/-! ## 1. Behind the registration of a list -/

/-- All types of a list are `Known` behind its registration. -/
theorem known_after (h : r.Kept) (ts : List CType) :
    ∀ t ∈ ts, (r.after (ts.map .register)).ledger.Known t := by
  induction ts generalizing r with
  | nil => exact List.forall_mem_nil _
  | cons t ts ih =>
    obtain ⟨hk, -, hknown, -⟩ := register_kept h t
    intro s hs
    rcases List.mem_cons.1 hs with rfl | hs
    · exact hknown.mono (kept_after hk (ts.map .register)).2.ledger
    · exact ih hk s hs

/-- **The registration of a list stays within a set of types** that holds what its types lead to. -/
theorem only_after {P : CType → Prop} (ts : List CType) :
    ∀ {r : Registry}, Ledger.Hereditary r.context P → (∀ t ∈ ts, P t) →
      (∀ t id, r.ledger.memo.lookup t = some id → P t) →
      ∀ t id, (r.after (ts.map .register)).ledger.memo.lookup t = some id → P t := by
  induction ts with
  | nil => exact fun _ _ hl => hl
  | cons t ts ih =>
    intro r hP ht hl
    refine ih (r := (r.register t).2) hP (fun s hs => ht s (List.mem_cons_of_mem _ hs)) ?_
    refine Ledger.settle_within hP _ (fun s hs => ?_) hl
    have hst : s = t := by simpa [Ledger.Promised] using hs
    exact hst ▸ ht t List.mem_cons_self

/-- **Two registries that register the same types,** each in its own order, know the same types:
their ledgers are `Peers`. -/
theorem peers_after (hr : r.Fresh) (hr' : r'.Fresh) (hc : r'.context = r.context)
    {ts ts' : List CType} (hp : ts.Perm ts') :
    Ledger.Peers r.context (r.after (ts.map .register)).ledger
      (r'.after (ts'.map .register)).ledger := by
  have one : ∀ {r r' : Registry} {ts ts' : List CType}, r.Fresh → r'.Fresh →
      r'.context = r.context → ts.Perm ts' → ∀ t, (r.after (ts.map .register)).ledger.Known t →
        (r'.after (ts'.map .register)).ledger.Known t := by
    intro r r' ts ts' hr hr' hc hp t hk
    obtain ⟨hk', hl'⟩ := kept_after hr'.kept (ts'.map .register)
    have hP := Ledger.Sound.hereditary hk'.sound hk'.closed
    rw [hl'.context, hc] at hP
    rcases hk with hn | hk
    · exact .inl hn
    · obtain ⟨id, hid⟩ := Option.isSome_iff_exists.1 hk
      refine only_after ts hP (fun s hs => known_after hr'.kept ts' s (hp.subset hs))
        (fun s i hs => ?_) t id hid
      rw [hr.memo] at hs
      cases hs
  have hk := (kept_after hr.kept (ts.map .register)).1.sound
  have hk' := (kept_after hr'.kept (ts'.map .register)).1.sound
  rw [(kept_after hr.kept (ts.map .register)).2.context] at hk
  rw [(kept_after hr'.kept (ts'.map .register)).2.context, hc] at hk'
  exact ⟨hk, hk', fun t => ⟨one hr hr' hc hp t, one hr' hr hc.symm hp.symm t⟩⟩

/-- What every registration keeps, that of a list keeps. -/
theorem after_keeps {P : Ledger → Prop}
    (hP : ∀ {ctx detail l}, P l → ∀ t, P (l.register ctx detail t)) (ts : List CType) :
    ∀ {r : Registry}, P r.ledger → P (r.after (ts.map .register)).ledger := by
  induction ts with
  | nil => exact id
  | cons t ts ih => exact fun h => ih (r := (Registry.register t _).2) (hP h t)

/-- The registration of a list, each type once or more, in a registry that knows nothing yet. -/
theorem gathered_after (hr : r.Fresh) (hk : r.ledger.naming.Orderly) {ts : List CType}
    (hs : r.context.SpeltAsListed ts) : (r.after (ts.map .register)).Gathered where
  toKept := (kept_after hr.kept _).1
  added := by rw [added_after, hr.added]
  tagged := tagged_after (hr.tagged hk) _
  spellings := by
    refine after_keeps (fun h t => h.register t) ts fun p hp => ?_
    rw [hr.fundamentals] at hp
    cases hp
  listed := by
    have hw : (r.after (ts.map .register)).ledger.Within (r.context.closure ts) := by
      refine within_after ts (fun t ht => ht) ⟨fun t id h => ?_, fun p hp => ?_⟩
      · rw [hr.memo] at h
        cases h
      · rw [hr.fundamentals] at hp
        cases hp
    intro p hp
    obtain ⟨hid, hf⟩ := (kept_after hr.kept (ts.map .register)).1.sound.spelt p hp
    exact hs _ (hw.spelt p hp) p.2 rfl (hid ▸ hf)
  unnamed := by
    have hnew : r.ledger.Newcomers (r.after (ts.map .register)).ledger :=
      after_keeps (P := r.ledger.Newcomers)
        (fun h t => h.trans (Ledger.newcomers_register t _)) ts (.refl _)
    have hgiven : (r.after (ts.map .register)).ledger.naming.given = r.ledger.naming.given :=
      after_keeps (P := fun l => l.naming.given = r.ledger.naming.given)
        (fun h t => (Ledger.given_register t _).trans h) ts rfl
    intro row hm s ht
    rw [hgiven]
    have hle : r.ledger.naming.serials ≤ s := by
      refine (hnew.rows row hm).elim (fun hold => ?_) fun hnew => hnew s ht
      rw [hr.rows] at hold
      cases hold
    cases hl : r.ledger.naming.given.lookup s with
    | none => rfl
    | some n =>
      have := hk.serials s n hl
      omega

theorem matched_after (hr : r.Fresh) (hr' : r'.Fresh) (hk : r.ledger.naming.Orderly)
    (hk' : r'.ledger.naming.Orderly) (hc : r'.context = r.context) {ts ts' : List CType}
    (hp : ts.Perm ts') (hs : r.context.SpeltAsListed ts) :
    Matched (r.after (ts.map .register)) (r'.after (ts'.map .register)) where
  left := gathered_after hr hk hs
  right := by
    refine gathered_after hr' hk' fun t ht => hs t ?_
    rw [hc] at ht
    exact Context.closure_mono hp.symm.subset ht
  context := by
    rw [(kept_after hr.kept (ts.map .register)).2.context,
      (kept_after hr'.kept (ts'.map .register)).2.context, hc]
  peers := by
    rw [(kept_after hr.kept (ts.map .register)).2.context]
    exact peers_after hr hr' hc hp

/-! ## 2. Tables -/

namespace Matched

/-- A row has the name that the row of the same type has: that of the source, or none yet. -/
theorem current?_tag (h : Matched r r') {row : Row} (hm : row ∈ r.ledger.rows) {tag : Tag}
    (ht : row.tag = some tag) : r'.ledger.naming.current? (tag.renumbered h.serial) =
      r.ledger.naming.current? tag := by
  obtain ⟨row', hm', -, -, htag⟩ := h.row hm
  rw [ht, Option.map_some] at htag
  cases tag with
  | named n => rfl
  | anonymous s =>
    exact (h.right.unnamed row' hm' _ htag).trans (h.left.unnamed row hm s ht).symm

theorem kind (h : Matched r r') {row row' : Row} (ht : row'.type = row.type) :
    r'.kind row' = r.kind row := by
  rw [Registry.kind, Registry.kind, ht, h.context]

/-- **The entry of a type is that of the same type,** under the other identifiers. -/
theorem entry (h : Matched r r') (hn : r.renames = none) (hn' : r'.renames = none) {row row' : Row}
    (hm : row ∈ r.ledger.rows) (ht : row'.type = row.type) (hid : row'.id = h.ids row.id)
    (htag : row'.tag = row.tag.map (Tag.renumbered h.serial)) :
    r'.entry row' = (r.entry row).renamed h.ids := by
  have hu : r.Unrenamed := ⟨h.left.toKept, hn⟩
  have hu' : r'.Unrenamed := ⟨h.right.toKept, hn'⟩
  rw [Registry.entry, Registry.entry, hu.shown, hu'.shown, ← Entry.ofRecord_renamed, h.kind ht,
    h.rowRecord hm ht hid htag, hid, h.bases]
  refine Entry.ofRecord_carried h.ids h.serial _ _ fun tag hb => ?_
  exact h.current?_tag hm (h.left.tag_of_body hm hb).1

/-- The identifiers of the rows, in the order of the table, are the other ones in some order. -/
theorem perm_listed (h : Matched r r') :
    ((r.listed.map Row.id).map h.ids).Perm (r'.listed.map Row.id) := by
  refine (List.perm_ext_iff_of_nodup (h.left.nodup_listed.map h.ids.injective)
    h.right.nodup_listed).2 fun id => ?_
  simp only [List.mem_map, mem_listed]
  constructor
  · rintro ⟨-, ⟨row, hm, rfl⟩, rfl⟩
    obtain ⟨row', hm', -, hid, -⟩ := h.row hm
    exact ⟨row', hm', hid⟩
  · rintro ⟨row', hm', rfl⟩
    obtain ⟨row, hm, ht, -⟩ := h.symm.row hm'
    obtain ⟨row'', hm'', ht', hid, -⟩ := h.row hm
    have hrow := h.right.sound.row_of_type hm'' hm' (ht'.trans ht)
    exact ⟨row.id, ⟨row, hm, rfl⟩, by rw [← hid, hrow]⟩

/-- The entries of the rows, looked up by the identifiers in the order of the table. -/
theorem listed_entries (h : r.Kept) :
    (r.listed.map Row.id).filterMap (fun id => (r.row? id).map r.entry) = r.listed.map r.entry := by
  rw [List.filterMap_map, ← List.filterMap_eq_map]
  refine List.filterMap_congr fun row hm => ?_
  rw [Function.comp_apply, h.row?_of_mem (mem_listed.1 hm)]
  rfl

/-- **What stands in the table for an identifier** (`row?`) stands in the other table for the other
one. -/
theorem entry_row? (h : Matched r r') (hn : r.renames = none) (hn' : r'.renames = none)
    (id : TypeId) : (r'.row? (h.ids id)).map r'.entry =
      ((r.row? id).map r.entry).map (Entry.renamed h.ids) := by
  cases hrow : r.row? id with
  | none =>
    obtain ⟨hid, hrow'⟩ := h.ids_of_row?_eq_none hrow
    rw [hid, hrow']
    rfl
  | some row =>
    obtain ⟨hm, rfl⟩ := mem_of_row? hrow
    obtain ⟨row', hm', ht, hid, htag⟩ := h.row hm
    rw [← hid, h.right.row?_of_mem hm']
    exact congrArg some (h.entry hn hn' hm ht hid htag)

/-- The entry of the label is the same in both tables. -/
theorem labelEntry (h : Matched r r') (hn : r.renames = none) (hn' : r'.renames = none) :
    r.labelEntry.renamed h.ids = r'.labelEntry := by
  have hid : h.ids .label = .label := h.peers.exchange_of_ne id_ne_label
  have hvoid : h.ids ⟨"void"⟩ = ⟨"void"⟩ := h.sameUpTo.fundamental _ (by decide)
  have hattributes : r.labelEntry.attributes.renamed h.ids = r'.labelEntry.attributes := by
    show (Attributes.empty.set "ref" "void").renamed h.ids = Attributes.empty.set "ref" "void"
    rw [Attributes.renamed_set_reference h.ids _ (k := "ref") (by decide) ⟨"void"⟩, hvoid]
    rfl
  rw [Entry.renamed, hattributes, type_labelEntry ⟨h.left.toKept, hn⟩, hid,
    ← type_labelEntry ⟨h.right.toKept, hn'⟩]
  rfl

theorem perm_entries (h : Matched r r') (hn : r.renames = none) (hn' : r'.renames = none) :
    ((r.listed.map r.entry).map (Entry.renamed h.ids)).Perm (r'.listed.map r'.entry) := by
  rw [← listed_entries h.left.toKept, ← listed_entries h.right.toKept, List.map_filterMap]
  have hcarried : ∀ is : List TypeId,
      is.filterMap (fun id => ((r.row? id).map r.entry).map (Entry.renamed h.ids)) =
        (is.map h.ids).filterMap fun id => (r'.row? id).map r'.entry := by
    intro is
    rw [List.filterMap_map]
    exact List.filterMap_congr fun id _ => (h.entry_row? hn hn' id).symm
  rw [hcarried]
  exact h.perm_listed.filterMap _

/-- **The tables of registries that are `Matched` list the same entries,** under the other
identifiers and in some order. -/
theorem perm_types (h : Matched r r') (hn : r.renames = none) (hn' : r'.renames = none)
    (hl : r'.hasLabel = r.hasLabel) :
    (r.table.types.map (Entry.renamed h.ids)).Perm r'.table.types := by
  have hlabels : (if r.hasLabel then [r.labelEntry] else []).map (Entry.renamed h.ids) =
      if r'.hasLabel then [r'.labelEntry] else [] := by
    rw [hl, ← h.labelEntry hn hn']
    split <;> rfl
  have hmap := r.perm_types.map (Entry.renamed h.ids)
  rw [List.map_append, hlabels] at hmap
  exact hmap.trans (((h.perm_entries hn hn').append_right _).trans r'.perm_types.symm)

end Matched

theorem hasLabel_after (r : Registry) (ts : List CType) :
    (r.after (ts.map .register)).hasLabel = r.hasLabel := by
  induction ts generalizing r with
  | nil => rfl
  | cons t ts ih => exact ih (r.register t).2

/-- **The order of registration decides about identifiers only.** A list of types and a permutation
of it are registered, each in a `Fresh` registry over the same source. Builtin types with the
identifier of a fundamental one are spelt as the table of fundamental types spells them
(`SpeltAsListed`). Then the registries are the `SameUpTo` a permutation of identifiers, which keeps
the categories, the fundamental identifiers and the null identifier: it takes the identifier of
every type to that of the same type, every record with its bases to that of the same type, and the
entries of the one table to those of the other. -/
theorem order_only_renames (hr : r.Fresh) (hr' : r'.Fresh) (hk : r.ledger.naming.Orderly)
    (hk' : r'.ledger.naming.Orderly) (hc : r'.context = r.context) {ts ts' : List CType}
    (hp : ts.Perm ts') (hs : r.context.SpeltAsListed ts) :
    ∃ (f : Equiv.Perm TypeId) (g : Nat → Nat),
      SameUpTo f g (r.after (ts.map .register)) (r'.after (ts'.map .register)) ∧
      (r.renames = none → r'.renames = none → r'.hasLabel = r.hasLabel →
        ((r.after (ts.map .register)).table.types.map (Entry.renamed f)).Perm
          (r'.after (ts'.map .register)).table.types) := by
  have h := matched_after hr hr' hk hk' hc hp hs
  refine ⟨h.ids, h.serial, h.sameUpTo, fun hn hn' hl => h.perm_types ?_ ?_ ?_⟩
  · rw [(kept_after hr.kept _).2.renames, hn]
  · rw [(kept_after hr'.kept _).2.renames, hn']
  · rw [hasLabel_after, hasLabel_after, hl]

/-- The identifier that the first struct gets, registered before or behind the second one. -/
theorem lookup?_latecomer :
    (latecomerRegistry.after ([.record .none ⟨0⟩, .record .none ⟨1⟩].map .register)).lookup?
        (.record .none ⟨0⟩) = some ⟨"Struct0"⟩ ∧
      (latecomerRegistry.after ([.record .none ⟨1⟩, .record .none ⟨0⟩].map .register)).lookup?
        (.record .none ⟨0⟩) = some ⟨"Struct1"⟩ := by
  have hrun : ∀ i j, (latecomerRegistry.after
      ([.record .none ⟨i⟩, .record .none ⟨j⟩].map .register)).lookup? (.record .none ⟨0⟩) =
        (Ledger.register latecomerContext .quiet (.record .none ⟨j⟩)
          (Ledger.register latecomerContext .quiet (.record .none ⟨i⟩) {})).memo.lookup
            (.record .none ⟨0⟩) := fun _ _ => rfl
  have hfirst : Ledger.register latecomerContext .quiet (.record .none ⟨0⟩) {} = firstLedger :=
    Ledger.register_eq_of_settleFor 2 rfl
  have hlast : Ledger.register latecomerContext .quiet (.record .none ⟨1⟩) {} =
      (Ledger.settleFor latecomerContext .quiet 2 [.visit (.record .none ⟨1⟩)] {}).get rfl :=
    Ledger.register_eq_of_settleFor 2 rfl
  rw [hrun, hrun, hfirst, hlast, Ledger.register_eq_of_settleFor 2 rfl,
    Ledger.register_eq_of_settleFor 2 rfl]
  exact ⟨rfl, rfl⟩

/-- Two structs, one of them without a tag, in either order: their identifiers are exchanged. -/
theorem order_only_renames_latecomer :
    ∃ (f : Equiv.Perm TypeId) (g : Nat → Nat), f ⟨"Struct0"⟩ = ⟨"Struct1"⟩ ∧
      SameUpTo f g
        (latecomerRegistry.after ([.record .none ⟨0⟩, .record .none ⟨1⟩].map .register))
        (latecomerRegistry.after ([.record .none ⟨1⟩, .record .none ⟨0⟩].map .register)) := by
  have hspelt : latecomerRegistry.context.SpeltAsListed [.record .none ⟨0⟩, .record .none ⟨1⟩] := by
    have hc : ∀ t ∈ latecomerContext.closure [.record .none ⟨0⟩, .record .none ⟨1⟩],
        t.builtinSpelling = "int" ∨ t.builtinSpelling = "" := by
      decide
    rintro t ht s rfl hf
    rcases hc _ ht with hs | hs <;> obtain rfl : s = _ := hs
    · decide
    · exact absurd hf (by decide)
  have hperm : List.Perm [CType.record .none ⟨0⟩, .record .none ⟨1⟩]
      [.record .none ⟨1⟩, .record .none ⟨0⟩] := .swap _ _ _
  obtain ⟨f, g, hsame, -⟩ := order_only_renames ⟨rfl, rfl, rfl, rfl, rfl⟩ ⟨rfl, rfl, rfl, rfl, rfl⟩
    (Naming.orderly_of_given_nil rfl) (Naming.orderly_of_given_nil rfl) rfl hperm hspelt
  refine ⟨f, g, ?_, hsame⟩
  have hid := hsame.lookup? (.record .none ⟨0⟩)
  rw [lookup?_latecomer.1, lookup?_latecomer.2] at hid
  exact (Option.some.inj hid).symm

end Registry

end TypeLedger
