import TypeLedger.Proofs.Registration.Mirror
import TypeLedger.Proofs.Registration.Names
import TypeLedger.Proofs.Tables.Load
import Mathlib.Data.List.Perm.Basic

/-!
# The entries of a registry

* `Registry.Unrenamed`: a registry whose table shows its identifiers as they are.
* `Registry.readRecord_entry`: the entry of a row is read as the record of the row under a new tag.
* `Registry.Opened`: an environment shows what the table of a registry says.
* `Registry.opened_ofEntries`: the table of a registry that renames nothing is opened without a
  fault, on whatever naming.
-/

namespace TypeLedger

namespace Registry

/-- The registry shows its identifiers as they are. -/
structure Unrenamed (r : Registry) : Prop where
  kept : r.Kept
  renames : r.renames = none

variable {r : Registry}

theorem Unrenamed.shown (h : r.Unrenamed) : r.shown = id := by
  funext i
  rw [Registry.shown, h.renames]
  rfl

/-! ## 1. The order of the table -/

/-- The rows in the order of the table. -/
def listed (r : Registry) : List Row :=
  Category.all.flatMap fun c => r.ledger.rows.filter fun row => row.category == c

theorem mem_listed {row : Row} : row ∈ r.listed ↔ row ∈ r.ledger.rows := by
  simp only [listed, List.mem_flatMap, List.mem_filter, beq_iff_eq]
  constructor
  · rintro ⟨c, -, hm, -⟩
    exact hm
  · intro hm
    exact ⟨row.category, by cases row.category <;> decide, hm, rfl⟩

/-- No two rows of the table have one identifier. -/
theorem Kept.nodup_listed (h : r.Kept) : (r.listed.map Row.id).Nodup := by
  have hnum : ∀ c, ((r.ledger.rows.filter fun row => row.category == c).map Row.id).Nodup := by
    intro c
    rw [h.sound.numbered]
    exact Ledger.nodup_map_range_id _ _
  rw [listed, List.map_flatMap, List.nodup_flatMap]
  refine ⟨fun c _ => hnum c, ?_⟩
  have hall : Category.all.Pairwise (· ≠ ·) := by decide
  refine hall.imp fun {c d} hcd => ?_
  -- an identifier says its category
  intro i hi hj
  obtain ⟨row, hrow, rfl⟩ := List.mem_map.1 hi
  obtain ⟨row', hrow', hid⟩ := List.mem_map.1 hj
  rw [List.mem_filter, beq_iff_eq] at hrow hrow'
  have := h.sound.row_unique hrow.1 hrow'.1 hid.symm
  exact hcd (by rw [← hrow.2, ← hrow'.2, this])

theorem Kept.nodup_ids (h : r.Kept) : r.ids.Nodup := by
  classical
  have hrows : r.ledger.rows.Nodup := by
    refine List.nodup_iff_count_le_one.2 fun row => ?_
    have hcat : ((r.ledger.rows.filter fun r => r.category == row.category).map Row.id).Nodup := by
      rw [h.sound.numbered]
      exact Ledger.nodup_map_range_id _ _
    rw [← List.count_filter (p := fun r => r.category == row.category) (by simp)]
    exact List.nodup_iff_count_le_one.1 hcat.of_map row
  exact List.Nodup.map_on (fun a ha b hb hid => h.sound.row_unique ha hb hid) hrows

/-- The table lists every row once. -/
theorem Kept.perm_listed (h : r.Kept) : (r.listed.map Row.id).Perm r.ids := by
  refine (List.perm_ext_iff_of_nodup h.nodup_listed h.nodup_ids).2 fun i => ?_
  simp only [ids, List.mem_map, mem_listed]

/-- The table has an entry for every row, one for labels if it is asked for, and no other. -/
theorem perm_types (r : Registry) : r.table.types.Perm
    (r.listed.map r.entry ++ if r.hasLabel then [r.labelEntry] else []) := by
  have hlabel : (Category.all.flatMap fun c =>
      if c = .pointer ∧ r.hasLabel then [r.labelEntry] else []) =
        if r.hasLabel then [r.labelEntry] else [] := by
    cases r.hasLabel <;> rfl
  rw [← hlabel, listed, List.map_flatMap]
  show (Category.all.flatMap r.entriesOf).Perm _
  unfold entriesOf
  exact (List.flatMap_append_perm Category.all _ _).symm

theorem type_entry (h : r.Unrenamed) (row : Row) : (r.entry row).type = row.id := by
  rw [entry, Entry.ofRecord, h.shown]
  rfl

theorem type_labelEntry (h : r.Unrenamed) : r.labelEntry.type = .label := by
  rw [labelEntry, h.shown]
  rfl

/-- The identifiers of the entries are those of the rows, and that of labels if it is asked for. -/
theorem perm_type (h : r.Unrenamed) : (r.table.types.map Entry.type).Perm
    (r.listed.map Row.id ++ if r.hasLabel then [TypeId.label] else []) := by
  have hrows : (r.listed.map r.entry).map Entry.type = r.listed.map Row.id := by
    rw [List.map_map]
    exact List.map_congr_left fun row _ => type_entry h row
  have hlabel : (if r.hasLabel then [r.labelEntry] else []).map Entry.type =
      if r.hasLabel then [TypeId.label] else [] := by
    split
    · rw [List.map_singleton, type_labelEntry h]
    · rfl
  have hp := r.perm_types.map Entry.type
  rwa [List.map_append, hrows, hlabel] at hp

/-- No category begins like the identifier of labels. -/
theorem id_ne_label (c : Category) (n : Nat) : c.id n ≠ .label := by
  intro h
  have hl := congrArg (fun i : TypeId => i.text.toList.head?) h
  simp only [Category.toList_id] at hl
  revert hl
  cases c <;> exact fun he => absurd (Option.some.inj he) (by decide)

theorem Kept.label_not_mem (h : r.Kept) : ∀ row ∈ r.ledger.rows, row.id ≠ .label := by
  intro row hm hid
  obtain ⟨n, hn⟩ := h.sound.id_of_mem_rows hm
  exact id_ne_label _ n (hn.symm.trans hid)

/-- No two entries of the `table` have one identifier. -/
theorem nodup_type (h : r.Unrenamed) : (r.table.types.map Entry.type).Nodup := by
  refine (perm_type h).nodup_iff.2 ?_
  split
  · refine h.kept.nodup_listed.append (List.nodup_singleton _) fun i hi hl => ?_
    obtain ⟨row, hrow, rfl⟩ := List.mem_map.1 hi
    exact h.kept.label_not_mem row (mem_listed.1 hrow) (List.mem_singleton.1 hl)
  · rw [List.append_nil]
    exact h.kept.nodup_listed

theorem entry_mem {row : Row} (hm : row ∈ r.ledger.rows) : r.entry row ∈ r.table.types :=
  r.perm_types.mem_iff.2 (List.mem_append_left _ (List.mem_map_of_mem (mem_listed.2 hm)))

theorem mem_types {e : Entry} (he : e ∈ r.table.types) :
    (∃ row ∈ r.ledger.rows, e = r.entry row) ∨ (r.hasLabel = true ∧ e = r.labelEntry) := by
  rcases List.mem_append.1 (r.perm_types.mem_iff.1 he) with he | he
  · obtain ⟨row, hrow, rfl⟩ := List.mem_map.1 he
    exact .inl ⟨row, mem_listed.1 hrow, rfl⟩
  · split at he
    · rename_i hl
      exact .inr ⟨hl, List.mem_singleton.1 he⟩
    · cases he

/-! ## 2. What an entry is read as -/

/-- The kind of a row's entry suits the row's record. -/
theorem kindFits_row (row : Row) : KindFits (r.kind row) (r.body row) := by
  unfold kind body
  split
  · cases hs : r.context.classify row.type with
    | builtin s =>
      have hk : EntryKind.key? EntryKind.other = none := by decide
      have hn : EntryKind.other ∉ [EntryKind.basic, EntryKind.pointer, EntryKind.function,
          EntryKind.array, EntryKind.enumeration] := by decide
      exact .other hk hn
    | pointer k t => exact .pointer
    | array n t => exact .array
    | function t ps v => exact .function
    | record d => exact .aggregate
    | enumeration name => exact .enumeration
    | other tag words =>
      have htag : tag ∈ ["unknownRecordType", "typedefType", "complexType", "vectorType",
          "otherType"] := by
        revert hs
        cases row.type with
        | record q id =>
          simp only [Context.classify]
          split <;> simp +contextual [eq_comm]
        | _ => simp +contextual [Context.classify, eq_comm]
      have hall : ∀ tag ∈ ["unknownRecordType", "typedefType", "complexType", "vectorType",
          "otherType"], EntryKind.key? tag = none ∧ tag ∉ [EntryKind.basic, EntryKind.pointer,
            EntryKind.function, EntryKind.array, EntryKind.enumeration] := by
        decide
      exact .other (hall tag htag).1 (hall tag htag).2
  · exact .basic

/-- The record of a row as a table keeps it, under a tag. -/
def rereadRow (r : Registry) (row : Row) (tag : Tag) : TypeRecord :=
  ⟨row.id, row.type.quals, (r.body row).reread (r.kind row) tag (r.bases row.id)⟩

theorem readRecord_entry (h : r.Unrenamed) (row : Row) (tag : Tag) :
    (r.entry row).readRecord tag = .ok (r.rereadRow row tag, r.bases row.id) := by
  rw [entry, h.shown]
  exact Entry.readRecord_ofRecord (r := r.rowRecord row) (kindFits_row row) tag

/-- The entry of a row states the name that the tag of the row's record has so far. -/
theorem tag?_entry_eq (r : Registry) {row : Row} {tag : Tag} (hb : (r.body row).tag? = some tag) :
    (r.entry row).tag? = r.ledger.naming.current? tag := by
  rw [entry, Entry.tag?_ofRecord]
  show (r.body row).tag?.bind r.ledger.naming.current? = _
  rw [hb, Option.bind_some]

/-- The record of a row whose type can have a tag has the tag of the row. -/
theorem tag?_body {row : Row} {name : Option String}
    (ho : r.context.tagName? row.type = some name) :
    (r.body row).tag? = some (row.tag.getD (.anonymous 0)) := by
  unfold Context.tagName? at ho
  unfold body
  split at ho
  · rename_i hq
    rw [if_pos hq]
    cases hs : r.context.classify row.type with
    | record d => rfl
    | enumeration name => rfl
    | _ => rw [hs] at ho; cases ho
  · cases ho

/-- The record that entries for labels are read as. -/
def labelRecord : TypeRecord := ⟨.label, .none, .pointer .pointer ⟨"void"⟩⟩

theorem readRecord_labelEntry (h : r.Unrenamed) (tag : Tag) :
    r.labelEntry.readRecord tag = .ok (labelRecord, []) := by
  rw [labelEntry, h.shown]
  rfl

/-- Whatever has a tag has that of its row, and the tag suits the name. -/
theorem Kept.tag_of_body (h : r.Kept) {row : Row} (hm : row ∈ r.ledger.rows) {tag : Tag}
    (hb : (r.body row).tag? = some tag) :
    row.tag = some tag ∧ ∃ name, r.context.tagName? row.type = some name ∧
      Ledger.TagFits name tag := by
  have hfit := h.sound.row_tag row hm
  cases hname : r.context.tagName? row.type with
  | none =>
    exfalso
    revert hb hname
    unfold body Context.tagName?
    split
    · cases r.context.classify row.type <;> simp [TypeBody.tag?]
    · intro hb
      cases hb
  | some name =>
    rw [hname] at hfit
    cases ht : row.tag with
    | none => rw [ht] at hfit; exact hfit.elim
    | some tag' =>
      rw [tag?_body hname, ht] at hb
      obtain rfl := Option.some.inj hb
      rw [ht] at hfit
      exact ⟨rfl, name, rfl, hfit⟩

/-- The record of a row with a tag has that tag. -/
theorem Kept.tag?_of_row (h : r.Kept) {row : Row} (hm : row ∈ r.ledger.rows) {tag : Tag}
    (ht : row.tag = some tag) : (r.body row).tag? = some tag := by
  have hfit := h.sound.row_tag row hm
  rw [ht] at hfit
  cases hname : r.context.tagName? row.type with
  | none => rw [hname] at hfit; exact hfit.elim
  | some name => rw [tag?_body hname, ht, Option.getD_some]

/-! ## 3. The environment of a table -/

/-- The environment shows the registered types, each aggregate under the tag that `tagOf` gives its
identifier, and the fundamental types. -/
structure Shows (r : Registry) (env : Environment) (tagOf : TypeId → Tag) : Prop where
  row : ∀ row ∈ r.ledger.rows, env.lookup? row.id = some (r.rereadRow row (tagOf row.id))
  edges : ∀ row ∈ r.ledger.rows, env.baseEdges row.id = r.bases row.id
  fundamental : ∀ s, Fundamental.Listed s → env.lookup? (Fundamental.idOfSpelling s) =
    some ⟨Fundamental.idOfSpelling s, .none, .reserved s⟩

/-- The environment shows what the table says, and nothing else. Between the namings `k₀` and `k`
the tags were given. -/
structure Opened (r : Registry) (env : Environment) (tagOf : TypeId → Tag) (k₀ k : Naming) : Prop
    extends Shows r env tagOf where
  label : r.hasLabel = true → env.lookup? .label = some labelRecord
  only : ∀ i record, env.lookup? i = some record →
    (∃ row ∈ r.ledger.rows, row.id = i) ∨ (r.hasLabel = true ∧ i = .label) ∨
      ∃ s, Fundamental.Listed s ∧ record.body = .reserved s
  ids : env.ids = r.table.types.map Entry.type
  tags : Naming.Tags r.table.types tagOf k₀ k

/-- What an entry is read as; a faulty entry counts as one of an unknown type. -/
def readingOf (e : Entry) (tag : Tag) : TypeRecord × List BaseEdge :=
  match e.readRecord tag with
  | .ok v => v
  | .error _ => (⟨e.type, .none, .other e.kind⟩, [])

theorem readingOf_entry (h : r.Unrenamed) (row : Row) (tag : Tag) :
    readingOf (r.entry row) tag = (r.rereadRow row tag, r.bases row.id) := by
  rw [readingOf, readRecord_entry h]

theorem readingOf_labelEntry (h : r.Unrenamed) (tag : Tag) :
    readingOf r.labelEntry tag = (labelRecord, []) := by
  rw [readingOf, readRecord_labelEntry h]

theorem lookup_fundamental {s : String} (hs : Fundamental.Listed s) :
    Layer.fundamental.records.lookup (Fundamental.idOfSpelling s) =
      some ⟨Fundamental.idOfSpelling s, .none, .reserved s⟩ := by
  have hall : ∀ s ∈ Fundamental.table.map Prod.snd,
      Layer.fundamental.records.lookup (Fundamental.idOfSpelling s) =
        some ⟨Fundamental.idOfSpelling s, .none, .reserved s⟩ := by
    decide
  exact hall s hs

theorem reserved_of_lookup_fundamental {i : TypeId} {record : TypeRecord}
    (h : Layer.fundamental.records.lookup i = some record) :
    Fundamental.isFundamental i = true ∧ ∃ s, Fundamental.Listed s ∧ record.body = .reserved s := by
  obtain ⟨p, hp, he⟩ := List.mem_map.1 (Keyed.mem_of_lookup h)
  obtain ⟨rfl, rfl⟩ := Prod.mk.inj he
  have hall : ∀ p ∈ Fundamental.table, Fundamental.isFundamental p.1 = true := by decide
  exact ⟨hall p hp, p.2, List.mem_map_of_mem hp, rfl⟩

/-- No entry has the identifier of a fundamental type. -/
theorem fundamental_not_mem (h : r.Unrenamed) {s : String} (hs : Fundamental.Listed s) :
    Fundamental.idOfSpelling s ∉ r.table.types.map Entry.type := by
  have hf := (reserved_of_lookup_fundamental (lookup_fundamental hs)).1
  intro hm
  obtain ⟨e, he, hid⟩ := List.mem_map.1 hm
  rcases mem_types he with ⟨row, hrow, rfl⟩ | ⟨-, rfl⟩
  · obtain ⟨n, hn⟩ := h.kept.sound.id_of_mem_rows hrow
    rw [← hid, type_entry h, hn, Fundamental.not_isFundamental_id] at hf
    cases hf
  · rw [← hid, type_labelEntry h] at hf
    revert hf
    decide

/-- **The table of a registry that renames nothing is opened without a fault,** and the environment
shows what the registry has (`Opened`). -/
theorem opened_ofEntries (h : r.Unrenamed) (k₀ : Naming) :
    ∃ env k tagOf, Environment.ofEntries r.table.types k₀ = (.ok env, k) ∧
      r.Opened env tagOf k₀ k := by
  have hreads : ∀ e ∈ r.table.types, e.ReadsAs (readingOf e) := by
    intro e he tag
    rcases mem_types he with ⟨row, -, rfl⟩ | ⟨-, rfl⟩
    · rw [readingOf_entry h, readRecord_entry h]
      exact ⟨rfl, (type_entry h row).symm⟩
    · rw [readingOf_labelEntry h, readRecord_labelEntry h]
      exact ⟨rfl, (type_labelEntry h).symm⟩
  obtain ⟨top, k, tagOf, hof, hadds, htags⟩ :=
    Environment.ofEntries_spec hreads (nodup_type h) k₀
  have hlookup := Environment.lookup?_single top
  have hrow : ∀ row ∈ r.ledger.rows, (Environment.mk top []).lookup? row.id =
      some (r.rereadRow row (tagOf row.id)) := by
    intro row hrow
    have := hadds.records _ (entry_mem hrow)
    rwa [type_entry h, readingOf_entry h, ← hlookup] at this
  refine ⟨⟨top, []⟩, k, tagOf, hof, ⟨hrow, ?edges, ?fundamental⟩, ?label, ?only, ?ids, ?tags⟩
  case edges =>
    intro row hm
    have hb := hadds.bases _ (entry_mem hm)
    rw [type_entry h, readingOf_entry h] at hb
    have hl := hrow row hm
    rw [hlookup] at hl
    rw [Environment.baseEdges, Environment.layers, Environment.basesIn, Keyed.has, hl]
    exact hb
  case label =>
    intro hl
    have hm : r.labelEntry ∈ r.table.types := by
      refine r.perm_types.mem_iff.2 (List.mem_append_right _ ?_)
      rw [if_pos hl]
      exact List.mem_singleton_self _
    have := hadds.records _ hm
    rwa [type_labelEntry h, readingOf_labelEntry h, ← hlookup] at this
  case fundamental =>
    intro s hs
    rw [hlookup, hadds.others _ (fundamental_not_mem h hs)]
    exact lookup_fundamental hs
  case only =>
    intro i record hi
    by_cases hm : i ∈ r.table.types.map Entry.type
    · obtain ⟨e, he, rfl⟩ := List.mem_map.1 hm
      rcases mem_types he with ⟨row, hrow, rfl⟩ | ⟨hl, rfl⟩
      · exact .inl ⟨row, hrow, (type_entry h row).symm⟩
      · exact .inr (.inl ⟨hl, type_labelEntry h⟩)
    · rw [hlookup, hadds.others i hm] at hi
      exact .inr (.inr (reserved_of_lookup_fundamental hi).2)
  case ids =>
    have hord := hadds.order
    rw [Environment.ids, Environment.layers, Environment.idsIn, Environment.idsIn, hord]
    rfl
  case tags => exact htags

/-- What has a name when its table is written keeps it as its tag; what has none is given a new
serial number. -/
theorem Opened.tagOf_cases {env : Environment} {tagOf : TypeId → Tag} {k₀ k : Naming}
    (ho : r.Opened env tagOf k₀ k) (h : r.Unrenamed) (hk : r.ledger.naming.Orderly) {row : Row}
    (hm : row ∈ r.ledger.rows) {tag : Tag} (hb : (r.body row).tag? = some tag) :
    (∃ n, r.ledger.naming.current? tag = some n ∧ tagOf row.id = .named n) ∨
      (r.ledger.naming.current? tag = none ∧
        ∃ s, tagOf row.id = .anonymous s ∧ k₀.serials ≤ s) := by
  have hentry := r.tag?_entry_eq hb
  obtain ⟨-, name, -, hfit⟩ := h.kept.tag_of_body hm hb
  cases hc : r.ledger.naming.current? tag with
  | some n =>
    have hne : n ≠ "" := by
      cases tag with
      | named m =>
        obtain rfl := Option.some.inj hc
        rintro rfl
        cases hfit.2
      | anonymous s => exact hk.ne_empty hc
    rw [hc] at hentry
    have hnamed := ho.tags.named _ (entry_mem hm) n hentry hne
    rw [type_entry h] at hnamed
    exact .inl ⟨n, rfl, hnamed⟩
  | none =>
    rw [hc] at hentry
    obtain ⟨s, hs, hle, -⟩ := ho.tags.anonymous _ (entry_mem hm) hentry
    rw [type_entry h] at hs
    exact .inr ⟨rfl, s, hs, hle⟩

/-- **An aggregate has the name behind its table that it had in front of it.** For a new serial
number no name has been made up. -/
theorem Opened.current?_tagOf {env : Environment} {tagOf : TypeId → Tag} {k₀ k : Naming}
    (ho : r.Opened env tagOf k₀ k) (h : r.Unrenamed) (hk : r.ledger.naming.Orderly)
    (hk₀ : k₀.Orderly) {row : Row} (hm : row ∈ r.ledger.rows) {tag : Tag}
    (hb : (r.body row).tag? = some tag) :
    k.current? (tagOf row.id) = r.ledger.naming.current? tag := by
  rcases ho.tagOf_cases h hk hm hb with ⟨n, hc, ht⟩ | ⟨hc, s, ht, hle⟩
  · rw [ht, hc]
    rfl
  · rw [ht, hc, Naming.current?, ho.tags.given]
    cases hl : k₀.given.lookup s with
    | none => rfl
    | some n =>
      have := hk₀.serials s n hl
      omega

end Registry

end TypeLedger
