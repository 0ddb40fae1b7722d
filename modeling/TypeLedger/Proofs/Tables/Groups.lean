import TypeLedger.Proofs.Registration.Reserved
import TypeLedger.Proofs.Tables.Faithful

/-!
# The groups of a table

* `Registry.group`: the entries of the types of a category, in the order of registration.
* `Stocked.Kept.group_eq`: sorting the reserved identifiers by the categories that their records are
  stored with gives these groups; `Stocked.Kept.table_eq`: so it gives the table of the registry.
* `Stocked.Kept.stats_eq`: counting the stored records by category gives the statistics.
* `Registry.table_grouped`: the table of a registry that stores records is its groups, one behind
  the other, with the entry for labels behind the pointers; the groups have one entry for each
  reserved identifier, numbered from zero on.
-/

namespace TypeLedger

namespace Registry

variable {r : Registry}

/-! ## 1. Groups -/

/-- The entries of the registered types of a category, in the order of registration. -/
def group (r : Registry) (c : Category) : List Entry :=
  (r.ledger.rows.filter fun row => row.category == c).map r.entry

theorem type_group (h : r.Unrenamed) (c : Category) : (r.group c).map Entry.type =
    (r.ledger.rows.filter fun row => row.category == c).map Row.id := by
  rw [group, List.map_map]
  exact List.map_congr_left fun row _ => type_entry h row

/-- **The identifiers of a `group`** are the word of its category and the numbers from zero on. -/
theorem type_group_eq_range (h : r.Unrenamed) (c : Category) :
    (r.group c).map Entry.type = (List.range (r.group c).length).map c.id := by
  have hids := (type_group h c).trans (h.kept.sound.numbered c)
  have hlen : (r.group c).length = r.ledger.counters.count c := by
    simpa using congrArg List.length hids
  rw [hids, hlen]

theorem sublist_group (h : r.Unrenamed) (c : Category) :
    ((r.group c).map Entry.type).Sublist r.ids := by
  rw [type_group h]
  exact List.filter_sublist.map _

/-- **The groups have one entry for each identifier** of `ids`. -/
theorem perm_groups (h : r.Unrenamed) :
    ((Category.all.flatMap r.group).map Entry.type).Perm r.ids := by
  have hgroups : Category.all.flatMap r.group = r.listed.map r.entry := by
    rw [listed, List.map_flatMap]
    rfl
  have htypes : (r.listed.map r.entry).map Entry.type = r.listed.map Row.id := by
    rw [List.map_map]
    exact List.map_congr_left fun row _ => type_entry h row
  rw [hgroups, htypes]
  exact h.kept.perm_listed

theorem perCategory_stats (r : Registry) :
    r.stats.perCategory = Category.all.map fun c => (c, (r.group c).length) := by
  refine List.map_congr_left fun c _ => ?_
  rw [group, List.length_map, List.countP_eq_length_filter]

/-! ## 2. Sorting what is stored -/

variable {f : Stocked}

/-- The entry of the record that is stored for a row is the entry of the row. -/
theorem Stocked.Kept.entry_stored (h : f.Kept) (row : Row) :
    f.entry (f.registry.stored row) = f.registry.entry row := by
  rw [Stocked.entry, h.bases_eq]
  rfl

/-- Sorting the identifiers of some rows puts their entries behind those of their categories. -/
theorem Stocked.Kept.lookup_foldl_sort (h : f.Kept) {rows : List Row}
    (hm : ∀ row ∈ rows, row ∈ f.registry.ledger.rows) (gs : List (Category × List Entry))
    (c : Category) :
    (((rows.map Row.id).foldl f.sort gs).lookup c).getD [] =
      (gs.lookup c).getD [] ++ (rows.filter fun row => row.category == c).map f.registry.entry := by
  induction rows generalizing gs with
  | nil => exact (List.append_nil _).symm
  | cons row rows ih =>
    have hsort : f.sort gs row.id =
        Keyed.set row.category ((gs.lookup row.category).getD [] ++ [f.registry.entry row]) gs := by
      rw [← h.entry_stored row]
      unfold Stocked.sort
      rw [h.lookup_row (hm row List.mem_cons_self)]
      rfl
    rw [List.map_cons, List.foldl_cons, hsort,
      ih fun row' hm' => hm row' (List.mem_cons_of_mem _ hm')]
    by_cases hc : row.category = c
    · subst hc
      simp
    · rw [Keyed.lookup_set_of_ne (Ne.symm hc), List.filter_cons_of_neg (by simpa using hc)]

/-- **Sorting by the stored categories** gives each `group` of the registry. -/
theorem Stocked.Kept.group_eq (h : f.Kept) (c : Category) : f.group c = f.registry.group c := by
  rw [Stocked.group, groups, h.ids_eq]
  exact h.lookup_foldl_sort (fun _ hm => hm) [] c

/-- **The table of what is stored** is the `table` of the registry. -/
theorem Stocked.Kept.table_eq (h : f.Kept) : f.table = f.registry.table := by
  have hgroup : f.group = f.registry.group := funext h.group_eq
  rw [Stocked.table, hgroup]
  rfl

/-- As many records are stored as there are types with a record. -/
theorem Stocked.Kept.size_eq (h : f.Kept) (hd : f.registry.ledger.Distinct) :
    f.size = f.registry.size := by
  rw [Stocked.size, (h.perm_entries hd).length_eq, belongings, List.length_append, List.length_map,
    List.length_map, Registry.size]

/-- **Counting what is stored** gives the `stats` of the registry. -/
theorem Stocked.Kept.stats_eq (h : f.Kept) (hd : f.registry.ledger.Distinct) :
    f.stats = f.registry.stats := by
  have hcount : ∀ q : Option Category → Bool,
      (f.store.entries.countP fun p => q p.2.category) =
        (f.registry.ledger.rows.countP fun row => q (some row.category)) +
          f.registry.ledger.fundamentals.countP fun _ => q none := by
    intro q
    rw [(h.perm_entries hd).countP_eq, belongings, List.countP_append, List.countP_map,
      List.countP_map]
    rfl
  rw [Stocked.stats, Registry.stats]
  congr 1
  · refine List.map_congr_left fun c _ => ?_
    rw [hcount fun k => k == some c]
    simp
  · rw [hcount fun k => k == none]
    simp

/-! ## 3. Tables -/

/-- **A table is its groups.** In every state that a registry comes to (`Stocked.Reached`), if it
renames nothing, the `table` of what is stored is the groups of the categories, one behind the
other, with the entry for labels, if it is asked for, behind that of the pointers. The groups have
one entry for each reserved identifier, which states what is stored under it with the category of
the group; a `group` keeps the order of registration, and its identifiers are numbered from zero on.
The `stats` count the entries of each group, and the fundamental types that types are registered
as. -/
theorem table_grouped (h : f.Reached) (hn : f.registry.renames = none) :
    f.table.types = (Category.all.flatMap fun c => f.group c ++
        if c = .pointer ∧ f.registry.hasLabel then [f.registry.labelEntry] else []) ∧
      f.registry.labelEntry.type = .label ∧ .label ∉ f.ids ∧
      ((Category.all.flatMap f.group).map Entry.type).Perm f.ids ∧ f.ids.Nodup ∧
      (∀ c, ((f.group c).map Entry.type).Sublist f.ids ∧
        (f.group c).map Entry.type = (List.range (f.group c).length).map c.id ∧
        ∀ e ∈ f.group c, ∃ stored, f.store.entries.lookup e.type = some stored ∧
          stored.category = some c ∧
          e = .ofRecord id f.registry.ledger.naming stored.kind (f.bases e.type) stored.record) ∧
      f.stats.perCategory = (Category.all.map fun c => (c, (f.group c).length)) ∧
      ∃ ids : List TypeId, ids.Nodup ∧ f.stats.fundamental = ids.length ∧
        ∀ id, id ∈ ids ↔ Fundamental.isFundamental id = true ∧ ∃ t, f.lookup? t = some id := by
  obtain ⟨hreached, hk⟩ := h.spec
  have hu : f.registry.Unrenamed := ⟨hreached.kept, hn⟩
  have hgroup : f.group = f.registry.group := funext hk.group_eq
  have hlabel : .label ∉ f.registry.ids := by
    intro hm
    obtain ⟨row, hrow, hid⟩ := List.mem_map.1 hm
    exact hu.kept.label_not_mem row hrow hid
  rw [hk.stats_eq hreached.distinct, hk.ids_eq]
  refine ⟨rfl, type_labelEntry hu, hlabel, ?_, hu.kept.nodup_ids, fun c => ?_, ?_,
    f.registry.ledger.fundamentals.map Prod.fst, hreached.distinct, ?_, fun id => ?_⟩
  · rw [hgroup]
    exact perm_groups hu
  · rw [hk.group_eq]
    refine ⟨sublist_group hu c, type_group_eq_range hu c, fun e he => ?_⟩
    obtain ⟨row, hm, rfl⟩ := List.mem_map.1 he
    obtain ⟨hrow, hc⟩ := List.mem_filter.1 hm
    refine ⟨f.registry.stored row, ?_, congrArg some (beq_iff_eq.1 hc), ?_⟩
    · rw [type_entry hu]
      exact hk.lookup_row hrow
    · rw [type_entry hu, hk.bases_eq, entry, hu.shown]
      rfl
  · rw [hgroup]
    exact perCategory_stats f.registry
  · exact (List.length_map _).symm
  · exact hreached.kept.sound.mem_fundamentals_iff hreached.spellingsKnown

/-- A pointer to nodes is numbered before the node and stated in front of it, with the entry for
labels between them. -/
theorem table_grouped_node :
    let f := (Stocked.mk nodeRegistry {}).after nodeCalls
    f.registry.renames = none ∧
      f.table.types.map (fun e => e.type.text) = ["Pointer0", "Label", "Struct0"] ∧
      ((f.group .structType).map Entry.type).Sublist f.ids ∧
      (f.stats.perCategory.filter fun p => 0 < p.2) = [(.pointer, 1), (.structType, 1)] := by
  intro f
  have hreached : f.Reached := (Stocked.Reached.fresh ⟨rfl, rfl, rfl, rfl, rfl⟩).after _
  obtain ⟨hregistry, hk⟩ : f.registry = nodeRegistry.after nodeCalls ∧ f.Kept :=
    Stocked.kept_after (Stocked.kept_fresh ⟨rfl, rfl, rfl, rfl, rfl⟩) nodeCalls
  have hknown : Ledger.register listContext .quiet (.record .none ⟨0⟩) nodeLedger = nodeLedger :=
    Ledger.register_eq_of_settleFor 1 rfl
  have hrun : (nodeRegistry.after nodeCalls).renames = none ∧
      (nodeRegistry.after nodeCalls).table.types.map (fun e => e.type.text) =
        ["Pointer0", "Label", "Struct0"] ∧
      (Category.all.map fun c => (c, ((nodeRegistry.after nodeCalls).group c).length)).filter
        (fun p => 0 < p.2) = [(.pointer, 1), (.structType, 1)] := by
    simp only [after_nodeCalls, addInheritance, register, hknown]
    decide +kernel
  rw [← hregistry] at hrun
  obtain ⟨hn, htable, hgroups⟩ := hrun
  obtain ⟨-, -, -, -, -, hgroup, hstats, -⟩ := table_grouped hreached hn
  refine ⟨hn, by rw [hk.table_eq, htable], (hgroup .structType).1, ?_⟩
  rw [hstats, ← hgroups]
  simp only [hk.group_eq]

end Registry

end TypeLedger
