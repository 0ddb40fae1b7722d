import TypeLedger.Proofs.Tables.Entries

/-!
# From a plain registry to an environment

* `Registry.Plain`: a registry whose table shows its identifiers as they are, no base having been
  stated on top, no label asked for and no name made up.
* `Registry.Loaded`: the environment has a record for every row and every fundamental type, and
  nothing else.
* `Registry.loaded_ofEntries`: the table of a plain registry is loaded without a fault.
-/

namespace TypeLedger

namespace Registry

/-- The registry shows its identifiers as they are, and has made up no name. -/
structure Plain (r : Registry) : Prop where
  kept : r.Kept
  added : r.added = {}
  renames : r.renames = none
  hasLabel : r.hasLabel = false
  given : r.ledger.naming.given = []

variable {r : Registry}

theorem Plain.unrenamed (h : r.Plain) : r.Unrenamed := ⟨h.kept, h.renames⟩

theorem Plain.register (h : r.Plain) (t : CType) : (r.register t).2.Plain := by
  obtain ⟨hk, hl, -, -⟩ := register_kept h.kept t
  exact ⟨hk, h.added, h.renames, h.hasLabel, (Ledger.given_register _ _).trans h.given⟩

theorem Plain.nodup_listed (h : r.Plain) : (r.listed.map Row.id).Nodup := h.kept.nodup_listed

theorem Plain.types_table (h : r.Plain) : r.table.types = r.listed.map r.entry := by
  have hc : ∀ c, r.entriesOf c =
      (r.ledger.rows.filter fun row => row.category == c).map r.entry := by
    intro c
    rw [entriesOf, h.hasLabel]
    simp
  rw [table, listed, List.map_flatMap]
  exact List.flatMap_congr fun c _ => hc c

/-- The tag that the entry of a row states is the name of the row's type. -/
theorem tag?_entry (h : r.Plain) {row : Row}
    (hfit : Ledger.RowTagFits (r.context.tagName? row.type) row.tag) :
    (∀ n, n ≠ "" → r.context.tagName? row.type = some (some n) → (r.entry row).tag? = some n) ∧
    (r.context.tagName? row.type = some none → (r.entry row).tag? = none) := by
  refine ⟨fun n hn ho => ?_, fun ho => ?_⟩
  · rw [tag?_entry_eq r (tag?_body ho)]
    rw [ho] at hfit
    cases ht : row.tag with
    | none => rw [ht] at hfit; exact hfit.elim
    | some tag =>
      rw [ht] at hfit
      cases tag with
      | named m =>
        obtain rfl := Option.some.inj hfit.1
        rfl
      | anonymous s => exact absurd hfit hn
  · rw [tag?_entry_eq r (tag?_body ho)]
    rw [ho] at hfit
    cases ht : row.tag with
    | none => rw [ht] at hfit; exact hfit.elim
    | some tag =>
      rw [ht] at hfit
      cases tag with
      | named m => cases hfit.1
      | anonymous s =>
        rw [Option.getD_some, Naming.current?, h.given]
        rfl

/-! ## 1. The environment of a table -/

/-- The environment has the records of the rows and of the fundamental types, and nothing else. -/
structure Loaded (r : Registry) (env : Environment) (tagOf : TypeId → Tag) (k : Naming) : Prop
    extends Shows r env tagOf where
  only : ∀ i record, env.lookup? i = some record →
    (∃ row ∈ r.ledger.rows, row.id = i) ∨ ∃ s, record.body = .reserved s
  ids : env.ids = r.listed.map Row.id
  named : ∀ row ∈ r.ledger.rows, ∀ n, n ≠ "" → r.context.tagName? row.type = some (some n) →
    tagOf row.id = .named n ∧ n ∈ k.namer.taken
  anonymous : ∀ row ∈ r.ledger.rows, r.context.tagName? row.type = some none →
    ∃ s, tagOf row.id = .anonymous s
  distinct : ∀ a ∈ r.ledger.rows, ∀ b ∈ r.ledger.rows, ∀ s, tagOf a.id = .anonymous s →
    tagOf b.id = .anonymous s → a = b
  given : k.given = []

/-- **The table of a plain registry is loaded without a fault,** and the environment shows what the
registry has (`Loaded`). -/
theorem loaded_ofEntries (h : r.Plain) :
    ∃ env k tagOf, Environment.ofEntries r.table.types {} = (.ok env, k) ∧
      r.Loaded env tagOf k := by
  have hu := h.unrenamed
  obtain ⟨env, k, tagOf, hof, ho⟩ := opened_ofEntries hu {}
  refine ⟨env, k, tagOf, hof, ?_⟩
  constructor
  · exact ho.toShows
  · intro i record hi
    rcases ho.only i record hi with hrow | ⟨hl, -⟩ | ⟨s, -, hs⟩
    · exact .inl hrow
    · rw [h.hasLabel] at hl
      cases hl
    · exact .inr ⟨s, hs⟩
  · rw [ho.ids, h.types_table, List.map_map]
    exact List.map_congr_left fun row _ => type_entry hu row
  · intro row hm n hn hname
    have ht := (tag?_entry h (h.kept.sound.row_tag row hm)).1 n hn hname
    have hnamed := ho.tags.named _ (entry_mem hm) n ht hn
    rw [type_entry hu] at hnamed
    exact ⟨hnamed, ho.tags.taken _ (entry_mem hm) n ht⟩
  · intro row hm hname
    have ht := (tag?_entry h (h.kept.sound.row_tag row hm)).2 hname
    obtain ⟨s, hs, -⟩ := ho.tags.anonymous _ (entry_mem hm) ht
    rw [type_entry hu] at hs
    exact ⟨s, hs⟩
  · intro a ha b hb s hsa hsb
    have := ho.tags.distinct _ (entry_mem ha) _ (entry_mem hb) s (by rwa [type_entry hu])
      (by rwa [type_entry hu])
    rw [type_entry hu, type_entry hu] at this
    exact h.kept.sound.row_unique ha hb this
  · exact ho.tags.given

end Registry

end TypeLedger
