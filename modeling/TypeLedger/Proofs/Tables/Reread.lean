import TypeLedger.Proofs.Numeral
import TypeLedger.Table.Decode
import TypeLedger.Table.Encode

/-!
# Entries are read as what they were written from

* `Attributes.get?_set`: an attribute has the value that it was given last.
* `TypeBody.reread`: what is left of the body of a record behind its entry. A tag is given anew, and
  a type that is known by some words only is known by its kind.
* `Entry.readRecord_ofRecord`: the entry of a record is read as the record with that body.
-/

namespace TypeLedger

/-! ## 1. Attributes -/

namespace Attributes

theorem lookup_place (k v m : String) (l : List (String × String)) :
    (place k v l).lookup m = if m = k then some v else l.lookup m := by
  induction l with
  | nil =>
    rw [place, List.lookup_cons]
    split <;> simp_all
  | cons p l ih =>
    obtain ⟨k', v'⟩ := p
    unfold place
    split
    · rw [List.lookup_cons]
      split <;> simp_all
    · split
      · rename_i hk
        subst hk
        rw [List.lookup_cons, List.lookup_cons]
        split <;> simp_all
      · rename_i hk
        rw [List.lookup_cons, ih, List.lookup_cons]
        by_cases hm : m = k'
        · have hmk : m ≠ k := fun h => hk (h.symm.trans hm)
          simp only [hmk, ↓reduceIte]
        · have hb : (m == k') = false := by simpa using hm
          simp only [hb]

theorem get?_set (a : Attributes) (name value m : String) :
    (a.set name value).get? m = if m = name then some value else a.get? m :=
  lookup_place name value m a.pairs

@[simp] theorem get?_empty (m : String) : empty.get? m = none := rfl

theorem get?_mark (a : Attributes) (name m : String) (on : Bool) :
    (a.mark name on).get? m = if m = name ∧ on = true then some "1" else a.get? m := by
  cases on with
  | false => simp [mark]
  | true => simp [mark, get?_set]

theorem get?_setSome (a : Attributes) (name m : String) (o : Option String) :
    (a.setSome name o).get? m = if m = name then o.or (a.get? m) else a.get? m := by
  cases o with
  | none => simp [setSome]
  | some v => simp [setSome, get?_set]

end Attributes

/-- The flag of a qualifier that is present has the value one. -/
def flagText (on : Bool) : Option String := if on then some "1" else none

theorem readFlag_one (name : String) : readFlag name "1" = .ok true := by
  rw [readFlag, if_pos (.inl rfl)]

/-- The `attributes` that a record's body adds to the flags of its qualifiers. -/
theorem get?_attributes_qualifier (k : Naming) (r : TypeRecord) :
    (r.attributes id k).get? "is_const" = flagText r.quals.isConst ∧
      (r.attributes id k).get? "is_volatile" = flagText r.quals.isVolatile ∧
      (r.attributes id k).get? "is_restrict" = flagText r.quals.isRestrict := by
  obtain ⟨i, ⟨c, v, s⟩, body⟩ := r
  cases body with
  | array size element =>
    cases size <;>
      simp [TypeRecord.attributes, Attributes.markQualifiers, Attributes.get?_set,
        Attributes.get?_mark, flagText]
  | _ =>
    simp [TypeRecord.attributes, Attributes.markQualifiers, Attributes.get?_set,
      Attributes.get?_mark, Attributes.get?_setSome, flagText]

/-! ## 2. Records -/

/-- The kind of an entry suits the body of a record. -/
inductive KindFits : String → TypeBody → Prop
  | basic {base : TypeId} : KindFits EntryKind.basic (.qualified base)
  | pointer {k : PointerKind} {t : TypeId} : KindFits EntryKind.pointer (.pointer k t)
  | function {t : TypeId} {ps : List Param} {v : Bool} :
    KindFits EntryKind.function (.function t ps v)
  | array {n : ArraySize} {t : TypeId} : KindFits EntryKind.array (.array n t)
  | aggregate {key : RecordKey} {tag : Tag} {complete : Bool} {ms : List Member}
    {bs : List BaseEdge} : KindFits (EntryKind.ofKey key) (.aggregate key tag complete ms bs)
  | enumeration {tag : Tag} : KindFits EntryKind.enumeration (.enumeration tag)
  | other {kind words : String} (hk : EntryKind.key? kind = none)
    (hn : kind ∉ [EntryKind.basic, EntryKind.pointer, EntryKind.function, EntryKind.array,
      EntryKind.enumeration]) : KindFits kind (.other words)

/-- What is left of a body behind an entry of a kind, with a new tag. -/
def TypeBody.reread (kind : String) (tag : Tag) (edges : List BaseEdge) : TypeBody → TypeBody
  | aggregate key _ complete ms _ =>
    aggregate key tag (complete || !ms.isEmpty || !edges.isEmpty) ms
      (if key = .classKey then edges else [])
  | enumeration _ => enumeration tag
  | other _ => other kind
  | body => body

theorem TypeBody.tag?_reread (kind : String) (tag : Tag) (edges : List BaseEdge) (b : TypeBody) :
    (b.reread kind tag edges).tag? = b.tag?.map fun _ => tag := by
  cases b <;> rfl

theorem mapM_map_eq_ok {α β ε : Type} {f : α → β} {g : β → Except ε α} (h : ∀ a, g (f a) = .ok a)
    (as : List α) : (as.map f).mapM g = .ok as := by
  induction as with
  | nil => rfl
  | cons a as ih =>
    rw [List.map_cons, List.mapM_cons, h, ih]
    rfl

theorem readMember_symbol (m : Member) : (m.symbol id).readMember = .ok m := by
  obtain ⟨name, type, access, width⟩ := m
  have ha : (Member.symbol id ⟨name, type, access, width⟩).readAccess = .ok access := by
    cases access with
    | none => rfl
    | some a =>
      show (Access.ofWord a.word).map some = _
      rw [Access.ofWord, Access.ofWord?_word]
      rfl
  have hw : (Member.symbol id ⟨name, type, access, width⟩).readBitWidth = .ok width := by
    cases width with
    | none => rfl
    | some n =>
      simp [Member.symbol, Symbol.readBitWidth, word32?_toString]
  rw [Symbol.readMember, ha, hw]
  rfl

namespace Entry

variable {k : Naming} {r : TypeRecord} {kind : String} {edges : List BaseEdge}

/-- An entry states the name that the aggregate of its record has so far. -/
theorem tag?_ofRecord (rename : TypeId → TypeId) (k : Naming) (kind : String)
    (edges : List BaseEdge) (r : TypeRecord) :
    (Entry.ofRecord rename k kind edges r).tag? = r.body.tag?.bind k.current? := by
  obtain ⟨i, q, body⟩ := r
  show (TypeRecord.attributes rename k ⟨i, q, body⟩).get? "tag" = _
  cases body with
  | array size element =>
    cases size <;>
      simp [TypeRecord.attributes, TypeBody.tag?, Attributes.markQualifiers, Attributes.get?_set,
        Attributes.get?_mark]
  | _ =>
    simp [TypeRecord.attributes, TypeBody.tag?, Attributes.markQualifiers, Attributes.get?_set,
      Attributes.get?_mark, Attributes.get?_setSome]

theorem flag_eq {e : Entry} {name : String} {on : Bool}
    (h : e.attributes.get? name = flagText on) : e.flag name = .ok on := by
  rw [flag, h]
  cases on with
  | false => rfl
  | true => exact readFlag_one name

theorem readQualifiers_ofRecord :
    (Entry.ofRecord id k kind edges r).readQualifiers = .ok r.quals := by
  obtain ⟨hc, hv, hr⟩ := get?_attributes_qualifier k r
  rw [readQualifiers, flag_eq (e := Entry.ofRecord id k kind edges r) hc,
    flag_eq (e := Entry.ofRecord id k kind edges r) hv,
    flag_eq (e := Entry.ofRecord id k kind edges r) hr]
  rfl

theorem readEdges_ofRecord :
    (Entry.ofRecord id k kind edges r).bases.mapM BaseEntry.readEdge = .ok edges :=
  mapM_map_eq_ok (f := fun e => BaseEntry.ofEdge { e with base := id e.base })
    BaseEntry.readEdge_ofEdge edges

section Fields

variable {i t : TypeId} {q : Qualifiers} {ps : List Param} {v : Bool} {n : ArraySize}

theorem flag_function : (Entry.ofRecord id k EntryKind.function edges
    ⟨i, q, .function t ps v⟩).flag "is_variadic" = .ok v := by
  refine flag_eq ?_
  cases v <;> simp [Entry.ofRecord, TypeRecord.attributes, Attributes.get?_set,
    Attributes.get?_mark, Attributes.markQualifiers, flagText]

theorem typeRef_function : (Entry.ofRecord id k EntryKind.function edges
    ⟨i, q, .function t ps v⟩).typeRef "return_type" = t := by
  simp [typeRef, Entry.ofRecord, TypeRecord.attributes, Attributes.get?_set, Attributes.get?_mark]

theorem typeRef_array : (Entry.ofRecord id k EntryKind.array edges
    ⟨i, q, .array n t⟩).typeRef "element_type" = t := by
  cases n <;> simp [typeRef, Entry.ofRecord, TypeRecord.attributes, Attributes.get?_set]

/-- A number is not taken for an unknown size, which no digit spells. -/
theorem readArraySize_array : (Entry.ofRecord id k EntryKind.array edges
    ⟨i, q, .array n t⟩).readArraySize = .ok n := by
  cases n with
  | fixed n =>
    have hne : toString n ≠ "*" := by
      intro he
      have hd := isDigit_of_mem_toString (n := n.toNat) (x := '*') (by
        have hs : toString n.toNat = "*" := he
        rw [hs]
        decide)
      revert hd
      decide
    simp [readArraySize, Entry.ofRecord, TypeRecord.attributes, Attributes.get?_set,
      word64?_toString, hne]
  | unknown =>
    simp [readArraySize, Entry.ofRecord, TypeRecord.attributes, Attributes.get?_set,
      Attributes.markQualifiers, Attributes.get?_mark]

end Fields

/-- The body of an entry is read as the body that it was written from. -/
theorem readBody_ofRecord (h : KindFits kind r.body) (tag : Tag) (complete : Bool) :
    (Entry.ofRecord id k kind edges r).readBody tag complete edges =
      .ok (match r.body with
        | .aggregate key _ _ ms _ =>
          .aggregate key tag complete ms (if key = .classKey then edges else [])
        | body => body.reread kind tag edges) := by
  obtain ⟨i, q, body⟩ := r
  cases h with
  | basic =>
    simp [readBody, Entry.ofRecord, EntryKind.basic, EntryKind.key?, typeRef,
      TypeRecord.attributes, Attributes.get?_set, TypeBody.reread]
  | pointer =>
    simp [readBody, Entry.ofRecord, EntryKind.basic, EntryKind.pointer, EntryKind.key?, typeRef,
      TypeRecord.attributes, Attributes.get?_set, Attributes.get?_setSome,
      Attributes.markQualifiers, Attributes.get?_mark, TypeBody.reread,
      PointerKind.ofAttrText_attrText]
  | @function t ps v =>
    have hkind : (Entry.ofRecord id k EntryKind.function edges
        ⟨i, q, .function t ps v⟩).kind = EntryKind.function := rfl
    have hps : (ps.map fun p => { p with type := id p.type }) = ps := List.map_id ps
    rw [readBody, hkind, typeRef_function, flag_function]
    show Except.ok (TypeBody.function t (ps.map fun p => { p with type := id p.type }) v) = _
    rw [hps]
    rfl
  | @array n t =>
    have hkind : (Entry.ofRecord id k EntryKind.array edges
        ⟨i, q, .array n t⟩).kind = EntryKind.array := rfl
    rw [readBody, hkind, typeRef_array, readArraySize_array]
    rfl
  | @aggregate key tag₀ c ms bs =>
    have hkind : (Entry.ofRecord id k (EntryKind.ofKey key) edges
        ⟨i, q, .aggregate key tag₀ c ms bs⟩).kind = EntryKind.ofKey key := rfl
    have hms : (Entry.ofRecord id k (EntryKind.ofKey key) edges
        ⟨i, q, .aggregate key tag₀ c ms bs⟩).symbols.mapM Symbol.readMember = .ok ms :=
      mapM_map_eq_ok (f := Member.symbol id) readMember_symbol ms
    rw [readBody, hkind, EntryKind.key?_ofKey, hms]
    rfl
  | enumeration => rfl
  | other hk hn =>
    simp only [List.mem_cons, List.not_mem_nil, or_false, not_or] at hn
    obtain ⟨hb, hp, hf, ha, he⟩ := hn
    simp [readBody, Entry.ofRecord, hk, hb, hp, hf, ha, he, TypeBody.reread]

/-- The entry of an aggregate states whether it is complete, and no other entry says that it is. -/
theorem exists_flag_complete (h : KindFits kind r.body) :
    ∃ stated, (Entry.ofRecord id k kind edges r).flag "is_complete" = .ok stated ∧
      ∀ key tag₀ c ms bs, r.body = .aggregate key tag₀ c ms bs → stated = c := by
  obtain ⟨i, q, body⟩ := r
  cases h with
  | @aggregate key tag₀ c ms bs =>
    refine ⟨c, flag_eq ?_, fun _ _ _ _ _ he => (TypeBody.aggregate.inj he).2.2.1⟩
    cases c <;> simp [Entry.ofRecord, TypeRecord.attributes, Attributes.get?_setSome,
      Attributes.get?_mark, Attributes.markQualifiers, flagText]
  | @array n t =>
    refine ⟨false, flag_eq ?_, fun _ _ _ _ _ he => by cases he⟩
    cases n <;> simp [Entry.ofRecord, TypeRecord.attributes, Attributes.get?_set,
      Attributes.get?_mark, Attributes.markQualifiers, flagText]
  | _ =>
    refine ⟨false, flag_eq ?_, fun _ _ _ _ _ he => by cases he⟩
    simp [Entry.ofRecord, TypeRecord.attributes, Attributes.get?_set, Attributes.get?_setSome,
      Attributes.get?_mark, Attributes.markQualifiers, flagText]

/-- **The entry of a record is read as the record,** but for what a table does not keep
(`reread`). -/
theorem readRecord_ofRecord (h : KindFits kind r.body) (tag : Tag) :
    (Entry.ofRecord id k kind edges r).readRecord tag =
      .ok (⟨r.id, r.quals, r.body.reread kind tag edges⟩, edges) := by
  obtain ⟨stated, hs, hc⟩ := @exists_flag_complete k r kind edges h
  simp only [readRecord, readQualifiers_ofRecord, readEdges_ofRecord, hs, bind, Except.bind,
    readBody_ofRecord h, pure, Except.pure]
  congr 2
  obtain ⟨i, q, body⟩ := r
  cases h with
  | aggregate =>
    obtain rfl := hc _ _ _ _ _ rfl
    simp [Entry.ofRecord, TypeBody.reread]
  | _ => rfl

end Entry

end TypeLedger
