import TypeLedger.Proofs.Layers.Built
import TypeLedger.Proofs.Tables.Reread

/-!
# Entries under other identifiers

* `Entry.renamed` puts a function on all identifiers of an entry, `Table.renamed` on all of a table;
  `TypeRecord.renamed` does so for a record. `Entry.ids` lists the identifiers of an entry.
* `Entry.ofRecord_renamed`: the entry that is written with a renaming is the one that is written
  without it, renamed.
* `Entry.readRecord_renamed`: a renamed entry is read as the renamed record.
* `Entry.refs_of_readRecord`: a record refers to identifiers of its entry only.
-/

namespace TypeLedger

variable (f : TypeId → TypeId)

/-! ## 1. Identifiers of a table -/

namespace Attributes

/-- The attributes whose values are identifiers. -/
def references : List String := ["ref", "return_type", "element_type", "name"]

/-- The value of an attribute, with `f` put on it if it is an identifier. -/
def renamedValue (name value : String) : String :=
  if name ∈ references then (f ⟨value⟩).text else value

theorem sorted_renamed {l : List (String × String)} (h : Sorted l) :
    Sorted (l.map fun p => (p.1, renamedValue f p.1 p.2)) := by
  unfold Sorted
  rw [List.pairwise_map]
  exact h

/-- The attributes with `f` put on those values that are identifiers. -/
def renamed (a : Attributes) : Attributes :=
  ⟨a.pairs.map fun p => (p.1, renamedValue f p.1 p.2), sorted_renamed f a.sorted⟩

end Attributes

/-- A symbol with `f` put on its type. -/
def Symbol.renamed (s : Symbol) : Symbol := { s with type := f s.type }

/-- A parameter with `f` put on its type. -/
def Param.renamed (p : Param) : Param := { p with type := f p.type }

/-- A base of an entry with `f` put on its identifier. -/
def BaseEntry.renamed (b : BaseEntry) : BaseEntry := { b with type := f b.type }

/-- An entry with `f` put on its identifier and on all that it refers to. -/
def Entry.renamed (e : Entry) : Entry where
  kind := e.kind
  type := f e.type
  attributes := e.attributes.renamed f
  params := e.params.map (Param.renamed f)
  symbols := e.symbols.map (Symbol.renamed f)
  bases := e.bases.map (BaseEntry.renamed f)

/-- A table with `f` put on every identifier. -/
def Table.renamed (t : Table) : Table :=
  ⟨t.types.map (Entry.renamed f), t.globals.map (Symbol.renamed f)⟩

/-- The identifiers among the values of attributes. -/
def Attributes.ids (a : Attributes) : List TypeId :=
  references.filterMap fun name => (a.get? name).map TypeId.mk

/-- The identifiers that stand in an entry: its own, and those among its `Attributes.ids`,
parameters, symbols and bases. -/
def Entry.ids (e : Entry) : List TypeId :=
  e.type :: (e.attributes.ids ++ e.params.map Param.type ++ e.symbols.map Symbol.type ++
    e.bases.map BaseEntry.type)

/-! ## 2. Attributes -/

namespace Attributes

theorem place_renamed (k v : String) (l : List (String × String)) :
    (place k v l).map (fun p => (p.1, renamedValue f p.1 p.2)) =
      place k (renamedValue f k v) (l.map fun p => (p.1, renamedValue f p.1 p.2)) := by
  induction l with
  | nil => rfl
  | cons p l ih =>
    rw [List.map_cons, place, place]
    split
    · rfl
    · split
      · rfl
      · rw [List.map_cons, ih]

theorem renamed_set (a : Attributes) (k v : String) :
    (a.set k v).renamed f = (a.renamed f).set k (renamedValue f k v) :=
  ext_pairs (place_renamed f k v a.pairs)

/-- A reference is given its value with `f` put on it. -/
theorem renamed_set_reference (a : Attributes) {k : String} (hk : k ∈ references) (i : TypeId) :
    (a.set k i.text).renamed f = (a.renamed f).set k (f i).text := by
  rw [renamed_set, renamedValue, if_pos hk]

/-- What is no reference is given the same value. -/
theorem renamed_set_other (a : Attributes) {k : String} (hk : k ∉ references) (v : String) :
    (a.set k v).renamed f = (a.renamed f).set k v := by
  rw [renamed_set, renamedValue, if_neg hk]

theorem renamed_mark (a : Attributes) {k : String} (hk : k ∉ references) (on : Bool) :
    (a.mark k on).renamed f = (a.renamed f).mark k on := by
  cases on with
  | false => rfl
  | true => exact renamed_set_other f a hk "1"

theorem renamed_setSome (a : Attributes) {k : String} (hk : k ∉ references) (o : Option String) :
    (a.setSome k o).renamed f = (a.renamed f).setSome k o := by
  cases o with
  | none => rfl
  | some v => exact renamed_set_other f a hk v

theorem renamed_markQualifiers (a : Attributes) (q : Qualifiers) :
    (a.markQualifiers q).renamed f = (a.renamed f).markQualifiers q := by
  unfold markQualifiers
  rw [renamed_mark f _ (by decide), renamed_mark f _ (by decide), renamed_mark f _ (by decide)]

theorem get?_renamed (a : Attributes) (k : String) :
    (a.renamed f).get? k = (a.get? k).map (renamedValue f k) := by
  show (a.pairs.map fun p => (p.1, renamedValue f p.1 p.2)).lookup k = _
  unfold get?
  induction a.pairs with
  | nil => rfl
  | cons p l ih =>
    rw [List.map_cons, List.lookup_cons, List.lookup_cons]
    by_cases hk : k = p.1
    · subst hk
      simp
    · simp only [beq_eq_false_iff_ne.2 hk, ih]

theorem get?_renamed_of_not_mem (a : Attributes) {k : String} (hk : k ∉ references) :
    (a.renamed f).get? k = a.get? k := by
  have hid : renamedValue f k = id := by
    funext v
    rw [renamedValue, if_neg hk]
    rfl
  rw [get?_renamed, hid, Option.map_id]
  rfl

end Attributes

/-! ## 3. Writing -/

/-- The `attributes` of a record, written with one renaming behind another. -/
theorem TypeRecord.attributes_renamed (g : TypeId → TypeId) (k : Naming) (r : TypeRecord) :
    r.attributes (fun i => f (g i)) k = (r.attributes g k).renamed f := by
  have hempty : Attributes.empty.renamed f = Attributes.empty := rfl
  obtain ⟨i, q, body⟩ := r
  cases body with
  | reserved | other =>
    simp only [attributes, Attributes.renamed_markQualifiers, hempty]
  | qualified base =>
    simp only [attributes, Attributes.renamed_markQualifiers, hempty,
      Attributes.renamed_set_reference f _ (k := "name") (by decide)]
  | pointer kind pointee =>
    simp only [attributes, Attributes.renamed_markQualifiers, hempty,
      Attributes.renamed_set_reference f _ (k := "ref") (by decide),
      Attributes.renamed_setSome f _ (k := "pointer_kind") (by decide)]
  | function result params variadic =>
    simp only [attributes, Attributes.renamed_markQualifiers, hempty,
      Attributes.renamed_set_reference f _ (k := "return_type") (by decide),
      Attributes.renamed_mark f _ (k := "is_variadic") (by decide)]
  | array size element =>
    cases size with
    | unknown =>
      simp only [attributes, Attributes.renamed_markQualifiers, hempty,
        Attributes.renamed_set_reference f _ (k := "element_type") (by decide)]
    | fixed n =>
      simp only [attributes, Attributes.renamed_markQualifiers, hempty,
        Attributes.renamed_set_reference f _ (k := "element_type") (by decide),
        Attributes.renamed_set_other f _ (k := "array_size") (by decide)]
  | aggregate key tag complete ms bs =>
    simp only [attributes, Attributes.renamed_markQualifiers, hempty,
      Attributes.renamed_setSome f _ (k := "tag") (by decide),
      Attributes.renamed_mark f _ (k := "is_complete") (by decide)]
  | enumeration tag =>
    simp only [attributes, Attributes.renamed_markQualifiers, hempty,
      Attributes.renamed_setSome f _ (k := "tag") (by decide)]

/-- **An entry that is written with a renaming** is the one that is written without it, with the
renaming put on every identifier (`Entry.renamed`). -/
theorem Entry.ofRecord_renamed (g : TypeId → TypeId) (k : Naming) (kind : String)
    (bases : List BaseEdge) (r : TypeRecord) :
    Entry.ofRecord (fun i => f (g i)) k kind bases r =
      (Entry.ofRecord g k kind bases r).renamed f := by
  have hattributes := r.attributes_renamed f g k
  have hbases : bases.map (fun e => BaseEntry.ofEdge { e with base := f (g e.base) }) =
      (bases.map fun e => BaseEntry.ofEdge { e with base := g e.base }).map
        (BaseEntry.renamed f) := by
    rw [List.map_map]
    rfl
  obtain ⟨i, q, body⟩ := r
  unfold Entry.renamed Entry.ofRecord
  rw [hattributes, hbases]
  cases body with
  | function | aggregate =>
    simp only [List.map_map, List.map_nil]
    rfl
  | _ => rfl

/-- The identifiers among the `attributes` of a record are those that it refers to. -/
theorem TypeRecord.mem_refs_of_attributes {g : TypeId → TypeId} {k : Naming} (r : TypeRecord)
    {i : TypeId} (h : i ∈ (r.attributes g k).ids) : ∃ j ∈ r.refs, i = g j := by
  obtain ⟨id, q, body⟩ := r
  cases body with
  | array size element =>
    cases size <;>
      simp_all [Attributes.ids, Attributes.references, attributes, TypeRecord.refs, TypeBody.refs,
        Attributes.markQualifiers, Attributes.get?_set, Attributes.get?_mark]
  | _ =>
    simp_all [Attributes.ids, Attributes.references, attributes, TypeRecord.refs, TypeBody.refs,
      Attributes.markQualifiers, Attributes.get?_set, Attributes.get?_mark, Attributes.get?_setSome]

/-! ## 4. Reading -/

/-- A base with `f` put on its identifier. -/
def BaseEdge.renamed (e : BaseEdge) : BaseEdge := { e with base := f e.base }

/-- A member with `f` put on its type. -/
def Member.renamed (m : Member) : Member := { m with type := f m.type }

/-- A body with `f` put on all that it refers to. -/
def TypeBody.renamed : TypeBody → TypeBody
  | reserved spelling => reserved spelling
  | qualified base => qualified (f base)
  | pointer kind pointee => pointer kind (f pointee)
  | function result params variadic =>
    function (f result) (params.map (Param.renamed f)) variadic
  | array size element => array size (f element)
  | aggregate key tag complete members bases =>
    aggregate key tag complete (members.map (Member.renamed f)) (bases.map (BaseEdge.renamed f))
  | enumeration tag => enumeration tag
  | other words => other words

/-- A record with `f` put on its identifier and on all that it refers to. -/
def TypeRecord.renamed (r : TypeRecord) : TypeRecord := ⟨f r.id, r.quals, r.body.renamed f⟩

/-- Reading one after the other what has been renamed one by one. -/
theorem mapM_renamed {α β ε : Type} {g : α → α} {h : β → β} {read : α → Except ε β}
    (hread : ∀ a, read (g a) = (read a).map h) (as : List α) :
    (as.map g).mapM read = (as.mapM read).map (List.map h) := by
  induction as with
  | nil => rfl
  | cons a as ih =>
    rw [List.map_cons, List.mapM_cons, List.mapM_cons, hread, ih]
    cases read a with
    | error => rfl
    | ok b => cases as.mapM read <;> rfl

theorem Symbol.readMember_renamed (s : Symbol) :
    (s.renamed f).readMember = s.readMember.map (Member.renamed f) := by
  have haccess : (s.renamed f).readAccess = s.readAccess := rfl
  have hwidth : (s.renamed f).readBitWidth = s.readBitWidth := rfl
  unfold readMember
  rw [haccess, hwidth]
  cases s.readAccess with
  | error => rfl
  | ok access => cases s.readBitWidth <;> rfl

theorem BaseEntry.readEdge_renamed (b : BaseEntry) :
    (b.renamed f).readEdge = b.readEdge.map (BaseEdge.renamed f) := by
  obtain ⟨access, type, isVirtual⟩ := b
  unfold readEdge renamed
  cases Access.ofWord access with
  | error => rfl
  | ok a =>
    cases isVirtual with
    | none => rfl
    | some v =>
      cases hv : readFlag "is_virtual" v <;>
        simp [hv, bind, Except.bind, Except.map, BaseEdge.renamed, pure, Except.pure]

namespace Entry

variable {f}

theorem flag_renamed (e : Entry) (name : String) (hn : name ∉ Attributes.references) :
    (e.renamed f).flag name = e.flag name := by
  unfold flag
  rw [show (e.renamed f).attributes = e.attributes.renamed f from rfl,
    Attributes.get?_renamed_of_not_mem f _ hn]

theorem tag?_renamed (e : Entry) : (e.renamed f).tag? = e.tag? :=
  Attributes.get?_renamed_of_not_mem f e.attributes (by decide)

/-- What is referred to nowhere is the null identifier, which keeps its text. -/
theorem typeRef_renamed (hnull : f .null = .null) (e : Entry) (name : String)
    (hn : name ∈ Attributes.references) : (e.renamed f).typeRef name = f (e.typeRef name) := by
  unfold typeRef
  rw [show (e.renamed f).attributes = e.attributes.renamed f from rfl, Attributes.get?_renamed]
  cases e.attributes.get? name with
  | none => exact hnull.symm
  | some v => rw [Option.map_some, Attributes.renamedValue, if_pos hn]

theorem readQualifiers_renamed (e : Entry) :
    (e.renamed f).readQualifiers = e.readQualifiers := by
  unfold readQualifiers
  rw [flag_renamed e _ (by decide), flag_renamed e _ (by decide), flag_renamed e _ (by decide)]

theorem readArraySize_renamed (e : Entry) : (e.renamed f).readArraySize = e.readArraySize := by
  unfold readArraySize
  rw [show (e.renamed f).attributes = e.attributes.renamed f from rfl,
    Attributes.get?_renamed_of_not_mem f _ (by decide)]

theorem readBody_renamed (hnull : f .null = .null) (e : Entry) (tag : Tag) (complete : Bool)
    (edges : List BaseEdge) :
    (e.renamed f).readBody tag complete (edges.map (BaseEdge.renamed f)) =
      (e.readBody tag complete edges).map (TypeBody.renamed f) := by
  have hkind : (e.renamed f).kind = e.kind := rfl
  have hpointer : (e.renamed f).attributes.get? "pointer_kind" = e.attributes.get? "pointer_kind" :=
    Attributes.get?_renamed_of_not_mem f e.attributes (by decide)
  unfold readBody
  rw [hkind, hpointer, typeRef_renamed hnull e "name" (by decide),
    typeRef_renamed hnull e "ref" (by decide),
    typeRef_renamed hnull e "return_type" (by decide),
    typeRef_renamed hnull e "element_type" (by decide),
    flag_renamed e "is_variadic" (by decide), readArraySize_renamed]
  cases EntryKind.key? e.kind with
  | some key =>
    have hms : (e.renamed f).symbols.mapM Symbol.readMember =
        (e.symbols.mapM Symbol.readMember).map (List.map (Member.renamed f)) :=
      mapM_renamed (Symbol.readMember_renamed f) e.symbols
    rw [hms]
    cases e.symbols.mapM Symbol.readMember with
    | error => rfl
    | ok ms => cases key <;> rfl
  | none =>
    dsimp only
    split
    · rfl
    split
    · rfl
    split
    · cases e.flag "is_variadic" <;> rfl
    split
    · cases e.readArraySize <;> rfl
    split <;> rfl

/-- **An entry that is `renamed` is read as the renamed record,** and its bases are renamed. -/
theorem readRecord_renamed (hnull : f .null = .null) (e : Entry) (tag : Tag) :
    (e.renamed f).readRecord tag =
      (e.readRecord tag).map fun v => (v.1.renamed f, v.2.map (BaseEdge.renamed f)) := by
  have hedges : (e.renamed f).bases.mapM BaseEntry.readEdge =
      (e.bases.mapM BaseEntry.readEdge).map (List.map (BaseEdge.renamed f)) :=
    mapM_renamed (BaseEntry.readEdge_renamed f) e.bases
  have hsymbols : (e.renamed f).symbols.isEmpty = e.symbols.isEmpty := List.isEmpty_map
  have hbases : (e.renamed f).bases.isEmpty = e.bases.isEmpty := List.isEmpty_map
  unfold readRecord
  rw [readQualifiers_renamed, hedges, flag_renamed e _ (by decide), hsymbols, hbases]
  cases e.readQualifiers with
  | error => rfl
  | ok quals =>
    cases e.bases.mapM BaseEntry.readEdge with
    | error => rfl
    | ok edges =>
      cases e.flag "is_complete" with
      | error => rfl
      | ok stated =>
        simp only [bind, Except.bind, Except.map, readBody_renamed hnull]
        cases e.readBody tag (stated || !e.symbols.isEmpty || !e.bases.isEmpty) edges <;> rfl

/-! ## 5. What a record refers to -/

theorem mem_ids {e : Entry} {i : TypeId} : i ∈ e.ids ↔ i = e.type ∨ i ∈ e.attributes.ids ∨
    i ∈ e.params.map Param.type ∨ i ∈ e.symbols.map Symbol.type ∨
    i ∈ e.bases.map BaseEntry.type := by
  rw [ids, List.mem_cons, List.mem_append, List.mem_append, List.mem_append, or_assoc, or_assoc]

/-- The entry of a record has the identifiers of the record and of its bases, as they are shown. -/
theorem ids_ofRecord {g : TypeId → TypeId} {k : Naming} {kind : String} {edges : List BaseEdge}
    {r : TypeRecord} {i : TypeId} (h : i ∈ (Entry.ofRecord g k kind edges r).ids) :
    i = g r.id ∨ (∃ j ∈ r.refs, i = g j) ∨ ∃ e ∈ edges, i = g e.base := by
  rcases mem_ids.1 h with h | h | h | h | h
  · exact .inl h
  · exact .inr (.inl (r.mem_refs_of_attributes h))
  · obtain ⟨p, hp, rfl⟩ := List.mem_map.1 h
    obtain ⟨i, q, body⟩ := r
    cases body with
    | function result params variadic =>
      obtain ⟨p', hp', rfl⟩ := List.mem_map.1 hp
      exact .inr (.inl ⟨p'.type, List.mem_cons_of_mem _ (List.mem_map_of_mem hp'), rfl⟩)
    | _ => cases hp
  · obtain ⟨s, hs, rfl⟩ := List.mem_map.1 h
    obtain ⟨i, q, body⟩ := r
    cases body with
    | aggregate key tag complete ms bs =>
      obtain ⟨m, hm, rfl⟩ := List.mem_map.1 hs
      exact .inr (.inl ⟨m.type, List.mem_append_left _ (List.mem_map_of_mem hm), rfl⟩)
    | _ => cases hs
  · obtain ⟨b, hb, rfl⟩ := List.mem_map.1 h
    obtain ⟨e, he, rfl⟩ := List.mem_map.1 hb
    exact .inr (.inr ⟨e, he, rfl⟩)

theorem exists_of_mapM_ok {α β ε : Type} {read : α → Except ε β} {as : List α} {bs : List β}
    (h : as.mapM read = .ok bs) {b : β} (hb : b ∈ bs) : ∃ a ∈ as, read a = .ok b := by
  induction as generalizing bs with
  | nil =>
    cases h
    cases hb
  | cons a as ih =>
    rw [List.mapM_cons] at h
    obtain ⟨c, hc, h⟩ := exists_ok_of_bind h
    obtain ⟨cs, hcs, h⟩ := exists_ok_of_bind h
    cases h
    rcases List.mem_cons.1 hb with rfl | hb
    · exact ⟨a, List.mem_cons_self, hc⟩
    · obtain ⟨a', ha', hread⟩ := ih hcs hb
      exact ⟨a', List.mem_cons_of_mem _ ha', hread⟩

theorem base_of_readEdge {b : BaseEntry} {edge : BaseEdge} (h : b.readEdge = .ok edge) :
    edge.base = b.type := by
  obtain ⟨access, -, h⟩ := exists_ok_of_bind h
  dsimp only at h
  split at h
  · obtain ⟨isVirtual, -, h⟩ := exists_ok_of_bind h
    cases h
    rfl
  · cases h
    rfl

theorem type_of_readMember {s : Symbol} {m : Member} (h : s.readMember = .ok m) :
    m.type = s.type := by
  obtain ⟨access, -, h⟩ := exists_ok_of_bind h
  obtain ⟨width, -, h⟩ := exists_ok_of_bind h
  cases h
  rfl

section

variable {D : TypeId → Prop} {e : Entry} {tag : Tag} {edges : List BaseEdge}
  (hnull : D .null) (he : ∀ i ∈ e.ids, D i)

include hnull he

theorem within_typeRef {name : String} (hn : name ∈ Attributes.references) :
    D (e.typeRef name) := by
  unfold typeRef
  cases hv : e.attributes.get? name with
  | none => exact hnull
  | some v =>
    have hm : ⟨v⟩ ∈ e.attributes.ids := List.mem_filterMap.2 ⟨name, hn, by rw [hv]; rfl⟩
    exact he _ (mem_ids.2 (.inr (.inl hm)))

/-- **A record refers to identifiers of its entry only** (`refs`), or to the null identifier; so do
its bases. -/
theorem refs_of_readRecord {r : TypeRecord} (h : e.readRecord tag = .ok (r, edges)) :
    D r.id ∧ (∀ j ∈ r.refs, D j) ∧ ∀ b ∈ edges, D b.base := by
  obtain ⟨hid, hes, complete, hbody⟩ := readAs_of_readRecord h
  have hedges : ∀ b ∈ edges, D b.base := by
    intro b hb
    obtain ⟨be, hbe, hread⟩ := exists_of_mapM_ok hes hb
    rw [base_of_readEdge hread]
    exact he _ (mem_ids.2 (.inr (.inr (.inr (.inr (List.mem_map_of_mem hbe))))))
  refine ⟨hid ▸ he _ (mem_ids.2 (.inl rfl)), ?_, hedges⟩
  rw [TypeRecord.refs]
  generalize r.body = body at hbody
  cases hbody with
  | @aggregate key ms hms =>
    intro j hj
    rcases List.mem_append.1 hj with hj | hj
    · obtain ⟨m, hm, rfl⟩ := List.mem_map.1 hj
      obtain ⟨s, hs, hread⟩ := exists_of_mapM_ok hms hm
      rw [type_of_readMember hread]
      exact he _ (mem_ids.2 (.inr (.inr (.inr (.inl (List.mem_map_of_mem hs))))))
    · split at hj
      · obtain ⟨b, hb, rfl⟩ := List.mem_map.1 hj
        exact hedges b hb
      · cases hj
  | qualified | pointer | array =>
    exact List.forall_mem_singleton.2 (within_typeRef hnull he (by decide))
  | function =>
    refine List.forall_mem_cons.2 ⟨within_typeRef hnull he (by decide), fun j hj => ?_⟩
    obtain ⟨p, hp, rfl⟩ := List.mem_map.1 hj
    exact he _ (mem_ids.2 (.inr (.inr (.inl (List.mem_map_of_mem hp)))))
  | enumeration | other => exact List.forall_mem_nil _

end

end Entry

end TypeLedger
