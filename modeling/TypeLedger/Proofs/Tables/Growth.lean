import TypeLedger.Proofs.Renaming.Carried
import TypeLedger.Proofs.Tables.Groups
import TypeLedger.Proofs.Tables.SharedNames

/-!
# A registration appends

* `Registry.Appended`: all that one registry says another says as well, word for word; what is new
  stands behind what is old.
* `Kept.appended_register` is one registration, `Kept.appended_registerEach` any number of them;
  `register_appends` is the same in every state that a registry comes to.
-/

namespace TypeLedger

/-- As long as no name is made up, all that have a name keep it, and no other gets one. -/
theorem Naming.current?_of_given_eq {k k' : Naming} (hg : k'.given = k.given) :
    k'.current? = k.current? := by
  funext tag
  cases tag with
  | named n => rfl
  | anonymous s => exact congrArg (List.lookup s) hg

namespace Registry

variable {r r' : Registry}

/-! ## 1. Appended registries -/

/-- All that `r` says `r'` says as well, and what `r'` has besides stands behind it: in the list of
the identifiers, and in each group of the table. -/
structure Appended (r r' : Registry) : Prop where
  memo : ∀ t id, r.lookup? t = some id → r'.lookup? t = some id
  record : ∀ id record, r.record? id = some record → r'.record? id = some record
  bases : ∀ id record, r.record? id = some record → r'.bases id = r.bases id
  name : ∀ id record, r.record? id = some record → r'.nameSoFar? id = r.nameSoFar? id
  ids : r.ids <+: r'.ids
  groups : ∀ c, r.group c <+: r'.group c
  hasLabel : r'.hasLabel = r.hasLabel
  labelEntry : r'.labelEntry = r.labelEntry

theorem Appended.refl (r : Registry) : r.Appended r :=
  ⟨fun _ _ h => h, fun _ _ h => h, fun _ _ _ => rfl, fun _ _ _ => rfl, List.prefix_rfl,
    fun _ => List.prefix_rfl, rfl, rfl⟩

theorem Appended.trans {r₁ r₂ r₃ : Registry} (h : r₁.Appended r₂) (h' : r₂.Appended r₃) :
    r₁.Appended r₃ where
  memo t id ht := h'.memo t id (h.memo t id ht)
  record id record hr := h'.record id record (h.record id record hr)
  bases id record hr := (h'.bases id record (h.record id record hr)).trans (h.bases id record hr)
  name id record hr := (h'.name id record (h.record id record hr)).trans (h.name id record hr)
  ids := h.ids.trans h'.ids
  groups c := (h.groups c).trans (h'.groups c)
  hasLabel := h'.hasLabel.trans h.hasLabel
  labelEntry := h'.labelEntry.trans h.labelEntry

/-- **The table grows at the ends of its groups** if rows are `Appended`. Nothing of it is
restated. -/
theorem Appended.table (h : r.Appended r') : ∃ new : Category → List Entry,
    r.table.types = (Category.all.flatMap fun c =>
        r.group c ++ if c = .pointer ∧ r.hasLabel then [r.labelEntry] else []) ∧
      r'.table.types = Category.all.flatMap fun c =>
        (r.group c ++ new c) ++ if c = .pointer ∧ r.hasLabel then [r.labelEntry] else [] := by
  choose new hnew using h.groups
  refine ⟨new, rfl, List.flatMap_congr fun c _ => ?_⟩
  rw [hnew c, ← h.hasLabel, ← h.labelEntry]
  rfl

/-- A record is that of a row, or it says how a fundamental type is spelt. -/
theorem row_or_fundamental_of_record? {id : TypeId} {record : TypeRecord}
    (h : r.record? id = some record) :
    (∃ row ∈ r.ledger.rows, row.id = id ∧ record = r.rowRecord row) ∨
      ∃ s, r.row? id = none ∧ r.ledger.fundamentals.lookup id = some s ∧
        record = ⟨id, .none, .reserved s⟩ := by
  unfold record? at h
  cases hrow : r.row? id with
  | some row =>
    rw [hrow] at h
    obtain ⟨hm, hid⟩ := mem_of_row? hrow
    exact .inl ⟨row, hm, hid, (Option.some.inj h).symm⟩
  | none =>
    rw [hrow] at h
    obtain ⟨s, hs, he⟩ := Option.map_eq_some_iff.1 h
    exact .inr ⟨s, rfl, hs, he.symm⟩

/-- No row has the identifier of a fundamental type. -/
theorem Kept.row?_fundamental (h : r.Kept) {id : TypeId}
    (hf : Fundamental.isFundamental id = true) : r.row? id = none := by
  refine h.row?_eq_none fun c n he => ?_
  rw [← he, Fundamental.not_isFundamental_id] at hf
  cases hf

/-- A fundamental type that has been met is fundamental. -/
theorem Kept.isFundamental_of_lookup (h : r.Kept) {id : TypeId} {s : String}
    (hs : r.ledger.fundamentals.lookup id = some s) : Fundamental.isFundamental id = true :=
  (h.sound.spelt _ (Keyed.mem_of_lookup hs)).2

section Step

variable (h : r.Kept) (h' : r'.Kept) (hl : r.Later r')
include h h' hl

/-- The `components` of a row keep their identifiers. -/
theorem Later.idOf_component {row : Row} (hm : row ∈ r.ledger.rows) {c : CType}
    (hc : c ∈ r.context.components row.type) : r'.ledger.idOf c = r.ledger.idOf c :=
  hl.idOf_eq h h' (h.closed row hm c hc)

theorem Later.bases_row (ha : r'.added = r.added) {row : Row} (hm : row ∈ r.ledger.rows) :
    r'.bases row.id = r.bases row.id := by
  have hdeclared : r'.declaredIn row = (r.declaredIn row).map (BaseEdge.renamed id) :=
    declaredIn_renamed hl.context rfl fun _ => hl.idOf_component h h' hm
  rw [Registry.bases, Registry.bases, declaredBases, declaredBases, hl.row? h' hm,
    h.row?_of_mem hm, ha, Option.elim_some, Option.elim_some, hdeclared]
  exact congrArg (· ++ _) (List.map_id _)

theorem Later.rowRecord (ha : r'.added = r.added) {row : Row} (hm : row ∈ r.ledger.rows) :
    r'.rowRecord row = r.rowRecord row := by
  have hbases : r'.bases row.id = (r.bases row.id).map (BaseEdge.renamed id) :=
    (hl.bases_row h h' ha hm).trans (List.map_id _).symm
  have htag : row.tag = row.tag.map (Tag.renumbered id) := by
    rcases row.tag with - | - | - <;> rfl
  have hbody := body_renamed hl.context rfl (fun _ => hl.idOf_component h h' hm)
    (h.sound.row_tag row hm) htag hbases
  rw [Registry.rowRecord, hbody, TypeBody.carried_id]
  rfl

theorem Later.entry (ha : r'.added = r.added)
    (hg : r'.ledger.naming.given = r.ledger.naming.given) {row : Row}
    (hm : row ∈ r.ledger.rows) : r'.entry row = r.entry row := by
  have hshown : r'.shown = r.shown := by
    funext id
    rw [shown, shown, hl.renames]
  have hkind : r'.kind row = r.kind row := by rw [kind, kind, hl.context]
  rw [Registry.entry, Registry.entry, hshown, hkind, hl.bases_row h h' ha hm,
    hl.rowRecord h h' ha hm]
  unfold Entry.ofRecord TypeRecord.attributes
  simp only [Naming.current?_of_given_eq hg]

theorem Later.group (ha : r'.added = r.added)
    (hg : r'.ledger.naming.given = r.ledger.naming.given) (c : Category) :
    r.group c <+: r'.group c := by
  obtain ⟨rows, hrows⟩ := hl.ledger.rows
  refine ⟨(rows.filter fun row => row.category == c).map r'.entry, ?_⟩
  rw [Registry.group, Registry.group, ← hrows, List.filter_append, List.map_append]
  congr 1
  exact (List.map_congr_left fun row hm =>
    hl.entry h h' ha hg (List.mem_of_mem_filter hm)).symm

/-- A registry that has registered more types, and done nothing else, has `Appended` them. -/
theorem Later.appended (ha : r'.added = r.added)
    (hg : r'.ledger.naming.given = r.ledger.naming.given) (hb : r'.hasLabel = r.hasLabel) :
    r.Appended r' := by
  have hnone : ∀ {id : TypeId} {s : String}, r.ledger.fundamentals.lookup id = some s →
      r'.row? id = none := fun hs => h'.row?_fundamental (h.isFundamental_of_lookup hs)
  refine ⟨hl.ledger.memo, fun id record hrec => ?_, fun id record hrec => ?_,
    fun id record hrec => ?_, hl.ledger.rows.map _, hl.group h h' ha hg, hb, ?_⟩
  · obtain ⟨row, hm, rfl, rfl⟩ | ⟨s, -, hs, rfl⟩ := row_or_fundamental_of_record? hrec
    · rw [h'.record?_of_mem (hl.ledger.rows.subset hm), hl.rowRecord h h' ha hm]
    · obtain ⟨fs, hfs⟩ := hl.ledger.fundamentals
      rw [record?, hnone hs, ← hfs, List.lookup_append, hs]
      rfl
  · obtain ⟨row, hm, rfl, -⟩ | ⟨s, hrow, hs, -⟩ := row_or_fundamental_of_record? hrec
    · exact hl.bases_row h h' ha hm
    · rw [Registry.bases, Registry.bases, declaredBases, declaredBases, hrow, hnone hs, ha]
      rfl
  · obtain ⟨row, hm, rfl, -⟩ | ⟨s, hrow, hs, -⟩ := row_or_fundamental_of_record? hrec
    · rw [nameSoFar?, nameSoFar?, hl.row? h' hm, h.row?_of_mem hm, Naming.current?_of_given_eq hg]
    · rw [nameSoFar?, nameSoFar?, hrow, hnone hs]
      rfl
  · rw [Registry.labelEntry, Registry.labelEntry, shown, shown, hl.renames]

end Step

/-! ## 2. Registrations -/

/-- **One registration appends** (`Appended`). -/
theorem Kept.appended_register (h : r.Kept) (t : CType) : r.Appended (r.register t).2 := by
  obtain ⟨h', hl, -, -⟩ := register_kept h t
  exact hl.appended h h' rfl (Ledger.given_register t r.ledger) rfl

/-- **Any number of registrations append** (`Appended`). -/
theorem Kept.appended_registerEach (h : r.Kept) (types : List CType) :
    r.Appended (r.after (types.map .register)) := by
  induction types generalizing r with
  | nil => exact .refl r
  | cons t ts ih => exact (h.appended_register t).trans (ih (register_kept h t).1)

/-- **A registration appends.** In every state that a registry comes to (`Registry.Reached`),
whatever the type is that is registered, and whether the registry renames or not: what had an
identifier has the same, what had a record has the same record, the same bases and the same name,
the list of the identifiers grows at its end (`Appended`), and so does every group of the table, in
which nothing is restated. -/
theorem register_appends (h : r.Reached) (t : CType) :
    r.Appended (r.register t).2 ∧ ∃ new : Category → List Entry,
      r.table.types = (Category.all.flatMap fun c =>
        r.group c ++ if c = .pointer ∧ r.hasLabel then [r.labelEntry] else []) ∧
      (r.register t).2.table.types = Category.all.flatMap fun c =>
        (r.group c ++ new c) ++ if c = .pointer ∧ r.hasLabel then [r.labelEntry] else [] := by
  have happended := h.kept.appended_register t
  exact ⟨happended, happended.table⟩

/-- A pointer to pointers to nodes stands between the pointer to nodes and the entry for labels, and
a node keeps the base that was stated late. -/
theorem register_appends_node :
    (nodeRegistry.after nodeCalls).table.types.map (fun e => e.type.text) =
        ["Pointer0", "Label", "Struct0"] ∧
      ((nodeRegistry.after nodeCalls).register (.pointer .none .pointer
          (.pointer .none .pointer (.record .none ⟨0⟩)))).2.table.types.map (fun e => e.type.text) =
        ["Pointer0", "Pointer1", "Label", "Struct0"] ∧
      ((nodeRegistry.after nodeCalls).register (.pointer .none .pointer
          (.pointer .none .pointer (.record .none ⟨0⟩)))).2.bases ⟨"Struct0"⟩ =
        [⟨.pub, ⟨"Struct0"⟩, false⟩] := by
  have hreached : (nodeRegistry.after nodeCalls).Reached :=
    (Reached.fresh ⟨rfl, rfl, rfl, rfl, rfl⟩).after _
  have hknown : Ledger.register listContext .quiet (.record .none ⟨0⟩) nodeLedger = nodeLedger :=
    Ledger.register_eq_of_settleFor 1 rfl
  have hnew : Ledger.register listContext .quiet (.pointer .none .pointer
      (.pointer .none .pointer (.record .none ⟨0⟩))) nodeLedger =
        (Ledger.settleFor listContext .quiet 2 [.visit (.pointer .none .pointer
          (.pointer .none .pointer (.record .none ⟨0⟩)))] nodeLedger).get rfl :=
    Ledger.register_eq_of_settleFor 2 rfl
  obtain ⟨hrecord, hbases, hbefore⟩ : ((nodeRegistry.after nodeCalls).record? ⟨"Struct0"⟩).isSome ∧
      (nodeRegistry.after nodeCalls).bases ⟨"Struct0"⟩ = [⟨.pub, ⟨"Struct0"⟩, false⟩] ∧
      (nodeRegistry.after nodeCalls).table.types.map (fun e => e.type.text) =
        ["Pointer0", "Label", "Struct0"] := by
    simp only [after_nodeCalls, addInheritance, register, hknown]
    decide +kernel
  obtain ⟨record, hrecord⟩ := Option.isSome_iff_exists.1 hrecord
  refine ⟨hbefore, ?_, ?_⟩
  · simp only [after_nodeCalls, addInheritance, register, hknown, hnew]
    decide +kernel
  · rw [(register_appends hreached _).1.bases _ record hrecord, hbases]

end Registry

end TypeLedger
