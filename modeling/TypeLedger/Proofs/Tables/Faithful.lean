import TypeLedger.Proofs.Tables.Entries

/-!
# A table gives back what was registered

* `TypeBody.Reread`: a body says what another says, behind a table.
* `Registry.reread_body`: what the record of a row says is said by the record behind its entry.
* `Registry.table_faithful`: the same behind any sequence of calls; and the environment lists the
  identifiers of the registry, that of labels if it is asked for, and no other.
-/

namespace TypeLedger

/-- The second body says what the first says, with a tag that is `named` alike. What was known by
some words is known by the kind of the entry; an aggregate with members or bases is complete. -/
inductive TypeBody.Reread (named : Tag → Tag → Prop) (kind : String) (edges : List BaseEdge) :
    TypeBody → TypeBody → Prop
  | reserved {spelling : String} : Reread named kind edges (.reserved spelling) (.reserved spelling)
  | qualified {base : TypeId} : Reread named kind edges (.qualified base) (.qualified base)
  | pointer {k : PointerKind} {t : TypeId} :
    Reread named kind edges (.pointer k t) (.pointer k t)
  | function {t : TypeId} {ps : List Param} {v : Bool} :
    Reread named kind edges (.function t ps v) (.function t ps v)
  | array {n : ArraySize} {t : TypeId} : Reread named kind edges (.array n t) (.array n t)
  | aggregate {key : RecordKey} {tag tag' : Tag} {complete : Bool} {ms : List Member}
    {bs : List BaseEdge} (ht : named tag tag') :
    Reread named kind edges (.aggregate key tag complete ms bs)
      (.aggregate key tag' (complete || !ms.isEmpty || !edges.isEmpty) ms bs)
  | enumeration {tag tag' : Tag} (ht : named tag tag') :
    Reread named kind edges (.enumeration tag) (.enumeration tag')
  | other {words : String} : Reread named kind edges (.other words) (.other kind)

namespace Registry

variable {r : Registry}

/-- The class bases that a row's record has are those that the registry has for it. -/
theorem reread_body (row : Row) {named : Tag → Tag → Prop} {tag' : Tag}
    (ht : ∀ tag, (r.body row).tag? = some tag → named tag tag') :
    (r.body row).Reread named (r.kind row) (r.bases row.id)
      ((r.body row).reread (r.kind row) tag' (r.bases row.id)) := by
  unfold body at ht ⊢
  split
  · rename_i hq
    rw [if_pos hq] at ht
    cases hs : r.context.classify row.type with
    | builtin s => exact .other
    | pointer k t => exact .pointer
    | array n t => exact .array
    | function t ps v => exact .function
    | record d =>
      rw [hs] at ht
      exact .aggregate (ht _ rfl)
    | enumeration name =>
      rw [hs] at ht
      exact .enumeration (ht _ rfl)
    | other sort words => exact .other
  · exact .qualified

/-- The entry that the table has for the identifier of a row is the row's entry. -/
theorem entry?_row (h : r.Unrenamed) {row : Row} (hm : row ∈ r.ledger.rows) :
    r.table.entry? row.id = some (r.entry row) := by
  cases hf : r.table.entry? row.id with
  | none =>
    have := List.find?_eq_none.1 hf _ (List.mem_reverse.2 (entry_mem hm))
    simp [type_entry h] at this
  | some e =>
    have he : e ∈ r.table.types := List.mem_reverse.1 (List.mem_of_find?_eq_some hf)
    have hid : e.type = (r.entry row).type := by
      rw [type_entry h]
      simpa using List.find?_some hf
    rw [List.inj_on_of_nodup_map (nodup_type h) he (entry_mem hm) hid]

theorem Kept.record?_of_mem (h : r.Kept) {row : Row} (hm : row ∈ r.ledger.rows) :
    r.record? row.id = some (r.rowRecord row) := by
  rw [record?, h.row?_of_mem hm]

/-- **A table gives back what was registered, behind any sequence of calls.** The table of a
registry that renames nothing is read by `Environment.ofEntries` without a fault. Under every
identifier of the registry the environment has the record of the registry (`TypeBody.Reread`), its
aggregates called by the names that they had in the table, and the same bases; and there are no
other identifiers than that of labels, if it is asked for. -/
theorem table_faithful {r : Registry} (hr : r.Fresh) (hn : r.renames = none)
    (hk : r.ledger.naming.Orderly) (calls : List Call) :
    ∃ env k, Environment.ofEntries (r.after calls).table.types {} = (.ok env, k) ∧
      (∀ id ∈ (r.after calls).ids, ∃ e record record',
        (r.after calls).table.entry? id = some e ∧
        (r.after calls).record? id = some record ∧ env.lookup? id = some record' ∧
        record'.id = record.id ∧ record'.quals = record.quals ∧
        record.body.Reread
          (fun tag tag' => k.current? tag' = (r.after calls).ledger.naming.current? tag)
          e.kind ((r.after calls).bases id) record'.body ∧
        env.baseEdges id = (r.after calls).bases id) ∧
      env.ids.Perm
        ((r.after calls).ids ++ if (r.after calls).hasLabel then [TypeId.label] else []) := by
  obtain ⟨hkept, hlater⟩ := kept_after hr.kept calls
  have h : (r.after calls).Unrenamed := ⟨hkept, hlater.renames.trans hn⟩
  have hnamed := named_after (hr.named hk) calls
  obtain ⟨env, k, tagOf, hof, ho⟩ := opened_ofEntries h {}
  refine ⟨env, k, hof, fun id hid => ?_, ?_⟩
  · obtain ⟨row, hm, rfl⟩ := List.mem_map.1 hid
    refine ⟨_, _, _, entry?_row h hm, hkept.record?_of_mem hm, ho.row row hm, rfl, rfl, ?_,
      ho.edges row hm⟩
    exact reread_body row fun tag htag =>
      ho.current?_tagOf h hnamed.naming (Naming.orderly_of_given_nil rfl) hm htag
  · rw [ho.ids]
    exact (perm_type h).trans (hkept.perm_listed.append_right _)

/-- A registry for the nodes of a list, which asks for labels. -/
def nodeRegistry : Registry := ⟨listContext, {}, {}, none, true, .quiet⟩

/-- The nodes are registered through a pointer; late a node is stated as a base of itself. -/
def nodeCalls : List Call :=
  [.register (.pointer .none .pointer (.record .none ⟨0⟩)),
    .addInheritance (.record .none ⟨0⟩) (.record .none ⟨0⟩) .pub false]

/-- The ledger that knows the nodes. -/
def nodeLedger : Ledger :=
  (Ledger.settleFor listContext .quiet 4
    [.visit (.pointer .none .pointer (.record .none ⟨0⟩))] {}).get rfl

theorem after_nodeCalls : nodeRegistry.after nodeCalls =
    (⟨listContext, nodeLedger, {}, none, true, .quiet⟩ : Registry).addInheritance
      (.record .none ⟨0⟩) (.record .none ⟨0⟩) .pub false := by
  have hnew : Ledger.register listContext .quiet
      (.pointer .none .pointer (.record .none ⟨0⟩)) {} = nodeLedger :=
    Ledger.register_eq_of_settleFor 4 rfl
  simp only [nodeRegistry, nodeCalls, after, List.foldl, Call.run, register, hnew]

/-- The base that was stated late stands behind a table with an entry for labels. -/
theorem table_faithful_node :
    ∃ env k record, Environment.ofEntries (nodeRegistry.after nodeCalls).table.types {} =
        (.ok env, k) ∧
      env.lookup? ⟨"Struct0"⟩ = some record ∧ record.quals = .none ∧
      env.baseEdges ⟨"Struct0"⟩ = [⟨.pub, ⟨"Struct0"⟩, false⟩] := by
  obtain ⟨env, k, hof, hrow, -⟩ := table_faithful (r := nodeRegistry)
    ⟨rfl, rfl, rfl, rfl, rfl⟩ rfl (Naming.orderly_of_given_nil rfl) nodeCalls
  have hrun : (nodeRegistry.after nodeCalls).record? ⟨"Struct0"⟩ =
        some ⟨⟨"Struct0"⟩, .none, .aggregate .structKey (.named "node") true
          [⟨some "value", ⟨"int"⟩, none, none⟩, ⟨some "next", ⟨"Pointer0"⟩, none, none⟩] []⟩ ∧
      ⟨"Struct0"⟩ ∈ (nodeRegistry.after nodeCalls).ids ∧
      (nodeRegistry.after nodeCalls).bases ⟨"Struct0"⟩ = [⟨.pub, ⟨"Struct0"⟩, false⟩] := by
    have hknown : Ledger.register listContext .quiet (.record .none ⟨0⟩) nodeLedger = nodeLedger :=
      Ledger.register_eq_of_settleFor 1 rfl
    simp only [after_nodeCalls, addInheritance, register, hknown]
    decide
  obtain ⟨hrec, hid, hbases⟩ := hrun
  obtain ⟨e, record, record', -, hr, hl, -, hq, -, hedges⟩ := hrow ⟨"Struct0"⟩ hid
  rw [hrec] at hr
  obtain rfl := Option.some.inj hr
  exact ⟨env, k, record', hof, hl, hq, hedges.trans hbases⟩

end Registry

end TypeLedger
