import TypeLedger.Proofs.Json.Pretty
import TypeLedger.Table.Codec

/-!
# Tables persisted

* `Json.Layout`: the names of a structure's fields and what is written in each. A field with nothing
  in it is left out.
* `Json.OmitsDefault`: a field is left out where it has its default, and read as its default where
  it is missing.
* For each structure of a table, what it takes to be read (`ofJson?_eq_some_iff`), and that it is
  read back from what is written (`ofJson?_toJson`).
* `Table.persisted`: a table is read back from its text, and what is left out has its default.
-/

namespace TypeLedger

namespace Json

variable {α β : Type} {name : String} {names : List String} {own : List (String × Json)}

/-! ## 1. Layouts -/

/-- The fields of a structure in their order. What has no value is left out. -/
structure Layout (α : Type) where
  names : List String
  nodup : names.Nodup
  fields : α → List (String × Option Json)
  names_fields : ∀ a, (fields a).map Prod.fst = names

/-- The fields that have a value. -/
def present (fields : List (String × Option Json)) : List (String × Json) :=
  fields.filterMap fun p => p.2.map (p.1, ·)

/-- The object that states a structure. -/
def Layout.write (l : Layout α) (a : α) : Json :=
  .object ((present (l.fields a)).map fun p => (some p.1, p.2))

theorem keys_present (fields : List (String × Option Json)) :
    ((present fields).map Prod.fst).Sublist (fields.map Prod.fst) := by
  induction fields with
  | nil => exact .slnil
  | cons p fields ih =>
    obtain ⟨n, _ | j⟩ := p
    · exact ih.cons n
    · exact ih.cons_cons n

theorem lookup_eq_none_iff : own.lookup name = none ↔ name ∉ own.map Prod.fst := by
  rw [List.lookup_eq_none_iff]
  simp only [bne_iff_ne, List.mem_map, not_exists, not_and]
  exact forall₂_congr fun p _ => ⟨Ne.symm, Ne.symm⟩

theorem lookup_present {fields : List (String × Option Json)} {o : Option Json}
    (h : (fields.map Prod.fst).Nodup) (hm : (name, o) ∈ fields) :
    (present fields).lookup name = o := by
  induction fields with
  | nil => cases hm
  | cons p fields ih =>
    obtain ⟨n, o'⟩ := p
    obtain ⟨hn, hnodup⟩ := List.nodup_cons.1 h
    rcases List.mem_cons.1 hm with heq | hmem
    · cases heq
      cases o with
      | none => exact lookup_eq_none_iff.2 fun hp => hn ((keys_present fields).subset hp)
      | some j => exact List.lookup_cons_self
    · have hname : name ∈ fields.map Prod.fst := List.mem_map_of_mem hmem
      have hne : (name == n) = false := beq_eq_false_iff_ne.2 fun he => hn (he ▸ hname)
      cases o' with
      | none => exact ih hnodup hmem
      | some j =>
        have hcons : present ((n, some j) :: fields) = (n, j) :: present fields := rfl
        rw [hcons, List.lookup_cons, hne]
        exact ih hnodup hmem

theorem ownFields?_map (hn : (own.map Prod.fst).Nodup) (hs : ∀ p ∈ own, p.1 ∈ names) :
    ownFields? names (own.map fun p => (some p.1, p.2)) = some own := by
  induction own with
  | nil => rfl
  | cons p own ih =>
    obtain ⟨k, j⟩ := p
    obtain ⟨hk, hn⟩ := List.nodup_cons.1 hn
    obtain ⟨hmem, hs⟩ := List.forall_mem_cons.1 hs
    have hhas : Keyed.has k own = false := by
      rw [Keyed.has, lookup_eq_none_iff.2 hk]
      rfl
    rw [List.map_cons, ownFields?, ih hn hs]
    simp [hmem, hhas]

namespace Layout

variable (l : Layout α) {a : α} {o : Option Json}

theorem structure?_write (a : α) :
    structure? l.names (l.write a) = some (present (l.fields a)) := by
  have hkeys := keys_present (l.fields a)
  rw [l.names_fields] at hkeys
  exact ownFields?_map (hkeys.nodup l.nodup) fun p hp => hkeys.subset (List.mem_map_of_mem hp)

theorem lookup (h : (name, o) ∈ l.fields a) : (present (l.fields a)).lookup name = o :=
  lookup_present (by rw [l.names_fields]; exact l.nodup) h

end Layout

/-! ## 2. Defaults -/

/-- The object has a field called `name`. -/
def HasField (name : String) : Json → Prop
  | .object fields => some name ∈ fields.map Prod.fst
  | _ => False

/-- The field called `name` is left out of what is written where `get` has its default, and there
only. Where it is missing from what is read, `get` has its default. -/
structure OmitsDefault (write : α → Json) (read : Json → Option α) (name : String) (get : α → β)
    (default : β) : Prop where
  omitted : ∀ a, ¬HasField name (write a) ↔ get a = default
  supplied : ∀ fields a, ¬HasField name (.object fields) → read (.object fields) = some a →
    get a = default

theorem keys_ownFields? {fields : List (Text × Json)} (h : ownFields? names fields = some own) :
    ∀ k ∈ own.map Prod.fst, some k ∈ fields.map Prod.fst := by
  induction fields generalizing own with
  | nil =>
    cases h
    exact fun k hk => by cases hk
  | cons p fields ih =>
    obtain ⟨_ | n, j⟩ := p
    · cases h
    · rw [ownFields?] at h
      obtain ⟨own', hown, h⟩ := Option.bind_eq_some_iff.1 h
      have hkeep : ∀ k ∈ own'.map Prod.fst, some k ∈ (some n :: fields.map Prod.fst) :=
        fun k hk => List.mem_cons_of_mem _ (ih hown k hk)
      split at h
      · split at h
        · cases h
        · cases h
          exact List.forall_mem_cons.2 ⟨List.mem_cons_self, hkeep⟩
      · cases h
        exact hkeep

theorem lookup_of_missing {fields : List (Text × Json)}
    (h : structure? names (.object fields) = some own) (hm : ¬HasField name (.object fields)) :
    own.lookup name = none :=
  lookup_eq_none_iff.2 fun hk => hm (keys_ownFields? h name hk)

theorem Layout.hasField_write (l : Layout α) {a : α} {o : Option Json}
    (h : (name, o) ∈ l.fields a) : ¬HasField name (l.write a) ↔ o = none := by
  rw [← l.lookup h]
  constructor
  · intro hm
    exact lookup_of_missing (l.structure?_write a) hm
  · intro hnone hm
    obtain ⟨p, hp, heq⟩ := List.mem_map.1 hm
    obtain ⟨q, hq, rfl⟩ := List.mem_map.1 hp
    cases heq
    exact lookup_eq_none_iff.1 hnone (List.mem_map_of_mem hq)

/-- A field that is written by a layout and read with a default. -/
theorem Layout.omitsDefault (l : Layout α) {read : Json → Option α} {o : α → Option Json}
    {get : α → β} {default : β} (f : Json → Option β) (hfield : ∀ a, (name, o a) ∈ l.fields a)
    (hnone : ∀ a, o a = none ↔ get a = default)
    (hread : ∀ j a, read j = some a → ∃ own, structure? l.names j = some own ∧
      defaulted? own name default f = some (get a)) :
    OmitsDefault l.write read name get default where
  omitted a := (l.hasField_write (hfield a)).trans (hnone a)
  supplied fields a hm h := by
    obtain ⟨own, hown, hget⟩ := hread _ a h
    rw [defaulted?, lookup_of_missing hown hm] at hget
    exact (Option.some.inj hget).symm

/-! ## 3. Values of fields -/

theorem required?_text {s : String} (h : own.lookup name = some (.ofString s)) :
    required? own name asString? = some s := by
  rw [required?, h]
  rfl

theorem required?_type {t : TypeId} (h : own.lookup name = some (.ofString t.text)) :
    required? own name TypeId.ofJson? = some t := by
  rw [required?, h]
  rfl

theorem defaulted?_optional {o : Option String} (h : own.lookup name = o.map .ofString) :
    defaulted? own name none asOptional? = some o := by
  rw [defaulted?, h]
  cases o <;> rfl

/-- A list, which is left out if it has no items. -/
def listed (g : α → Json) (items : List α) : Option Json :=
  if items.isEmpty then none else some (.array (items.map g))

theorem listed_eq_none {g : α → Json} {items : List α} : listed g items = none ↔ items = [] := by
  cases items <;> simp [listed]

theorem mapM_map {f : Json → Option α} {g : α → Json} (hf : ∀ a, f (g a) = some a)
    (items : List α) : (items.map g).mapM f = some items := by
  induction items with
  | nil => rfl
  | cons a items ih =>
    rw [List.map_cons, List.mapM_cons, hf, ih]
    rfl

theorem defaulted?_array {f : Json → Option α} {g : α → Json} {items : List α}
    (hf : ∀ a, f (g a) = some a) (h : own.lookup name = some (.array (items.map g))) :
    defaulted? own name [] (asList? f) = some items := by
  rw [defaulted?, h]
  exact mapM_map hf items

theorem defaulted?_list {f : Json → Option α} {g : α → Json} {items : List α}
    (hf : ∀ a, f (g a) = some a) (h : own.lookup name = listed g items) :
    defaulted? own name [] (asList? f) = some items := by
  cases items with
  | nil =>
    rw [defaulted?, h]
    rfl
  | cons a items => exact defaulted?_array hf h

theorem Layout.omitsDefault_optional (l : Layout α) {read : Json → Option α}
    {get : α → Option String} (hfield : ∀ a, (name, (get a).map .ofString) ∈ l.fields a)
    (hread : ∀ j a, read j = some a → ∃ own, structure? l.names j = some own ∧
      defaulted? own name none asOptional? = some (get a)) :
    OmitsDefault l.write read name get none :=
  l.omitsDefault _ hfield (fun _ => Option.map_eq_none_iff) hread

theorem Layout.omitsDefault_list (l : Layout α) {read : Json → Option α} {get : α → List β}
    (f : Json → Option β) (g : β → Json) (hfield : ∀ a, (name, listed g (get a)) ∈ l.fields a)
    (hread : ∀ j a, read j = some a → ∃ own, structure? l.names j = some own ∧
      defaulted? own name [] (asList? f) = some (get a)) :
    OmitsDefault l.write read name get [] :=
  l.omitsDefault _ hfield (fun _ => listed_eq_none) hread

theorem pairs?_map (l : List (String × String)) :
    pairs? (l.map fun p => (some p.1, .ofString p.2)) = some l := by
  induction l with
  | nil => rfl
  | cons p l ih =>
    rw [List.map_cons, pairs?, ih]
    rfl

end Json

/-! ## 4. Attributes -/

namespace Attributes

/-- A name behind all others is put at the end. -/
theorem place_of_lt {k v : String} {l : List (String × String)} (h : ∀ p ∈ l, p.1 < k) :
    place k v l = l ++ [(k, v)] := by
  induction l with
  | nil => rfl
  | cons p l ih =>
    obtain ⟨k', v'⟩ := p
    obtain ⟨hk, hl⟩ := List.forall_mem_cons.1 h
    have hne : k ≠ k' := by
      rintro rfl
      exact String.lt_irrefl k hk
    rw [place, if_neg (String.lt_asymm hk), if_neg hne, ih hl, List.cons_append]

theorem pairs_foldl {l : List (String × String)} {a : Attributes} (h : Sorted (a.pairs ++ l)) :
    (l.foldl (fun a p => a.set p.1 p.2) a).pairs = a.pairs ++ l := by
  induction l generalizing a with
  | nil => exact (List.append_nil _).symm
  | cons p l ih =>
    have hset : (a.set p.1 p.2).pairs = a.pairs ++ [p] :=
      place_of_lt fun q hq => (List.pairwise_append.1 h).2.2 q hq p List.mem_cons_self
    rw [List.foldl_cons, ih (by rw [hset, List.append_assoc]; exact h), hset, List.append_assoc]
    rfl

/-- Attributes are those that their pairs state. -/
theorem ofList_pairs (a : Attributes) : ofList a.pairs = a :=
  ext_pairs (pairs_foldl a.sorted)

theorem ofJson?_toJson (a : Attributes) : ofJson? a.toJson = some a := by
  rw [toJson, ofJson?, Json.pairs?_map, Option.map_some, ofList_pairs]

end Attributes

/-! ## 5. Structures -/

open Json

namespace Param

def layout : Layout Param where
  names := ["type", "name"]
  nodup := by decide
  fields p := [("type", some (.ofString p.type.text)), ("name", p.name.map .ofString)]
  names_fields _ := rfl

theorem toJson_eq : toJson = layout.write := by
  funext ⟨t, n⟩
  cases n <;> rfl

theorem ofJson?_eq_some_iff {j : Json} {p : Param} : ofJson? j = some p ↔
    ∃ own, j.structure? ["type", "name"] = some own ∧
      required? own "type" TypeId.ofJson? = some p.type ∧
      defaulted? own "name" none asOptional? = some p.name := by
  simp only [ofJson?, Option.bind_eq_bind, Option.pure_def, Option.bind_eq_some_iff,
    Option.some.injEq]
  constructor
  · rintro ⟨own, hown, t, ht, n, hn, rfl⟩
    exact ⟨own, hown, ht, hn⟩
  · rintro ⟨own, hown, ht, hn⟩
    exact ⟨own, hown, _, ht, _, hn, rfl⟩

theorem ofJson?_toJson (p : Param) : ofJson? p.toJson = some p := by
  rw [toJson_eq, ofJson?_eq_some_iff]
  exact ⟨_, layout.structure?_write p, required?_type (layout.lookup (by simp [layout])),
    defaulted?_optional (layout.lookup (by simp [layout]))⟩

theorem omitsDefault_name : OmitsDefault toJson ofJson? "name" name none := by
  rw [toJson_eq]
  refine layout.omitsDefault_optional (fun p => by simp [layout]) fun j p h => ?_
  obtain ⟨own, hown, -, hn⟩ := ofJson?_eq_some_iff.1 h
  exact ⟨own, hown, hn⟩

end Param

namespace Symbol

def layout : Layout Symbol where
  names := ["name", "type", "access", "bit_field"]
  nodup := by decide
  fields s := [("name", s.name.map .ofString), ("type", some (.ofString s.type.text)),
    ("access", s.access.map .ofString), ("bit_field", s.bitField.map .ofString)]
  names_fields _ := rfl

theorem toJson_eq : toJson = layout.write := by
  funext ⟨n, t, a, b⟩
  cases n <;> cases a <;> cases b <;> rfl

theorem ofJson?_eq_some_iff {j : Json} {s : Symbol} : ofJson? j = some s ↔
    ∃ own, j.structure? ["name", "type", "access", "bit_field"] = some own ∧
      defaulted? own "name" none asOptional? = some s.name ∧
      required? own "type" TypeId.ofJson? = some s.type ∧
      defaulted? own "access" none asOptional? = some s.access ∧
      defaulted? own "bit_field" none asOptional? = some s.bitField := by
  simp only [ofJson?, Option.bind_eq_bind, Option.pure_def, Option.bind_eq_some_iff,
    Option.some.injEq]
  constructor
  · rintro ⟨own, hown, n, hn, t, ht, a, ha, b, hb, rfl⟩
    exact ⟨own, hown, hn, ht, ha, hb⟩
  · rintro ⟨own, hown, hn, ht, ha, hb⟩
    exact ⟨own, hown, _, hn, _, ht, _, ha, _, hb, rfl⟩

theorem ofJson?_toJson (s : Symbol) : ofJson? s.toJson = some s := by
  rw [toJson_eq, ofJson?_eq_some_iff]
  exact ⟨_, layout.structure?_write s, defaulted?_optional (layout.lookup (by simp [layout])),
    required?_type (layout.lookup (by simp [layout])),
    defaulted?_optional (layout.lookup (by simp [layout])),
    defaulted?_optional (layout.lookup (by simp [layout]))⟩

theorem omitsDefault_name : OmitsDefault toJson ofJson? "name" name none := by
  rw [toJson_eq]
  refine layout.omitsDefault_optional (fun s => by simp [layout]) fun j s h => ?_
  obtain ⟨own, hown, hn, -⟩ := ofJson?_eq_some_iff.1 h
  exact ⟨own, hown, hn⟩

theorem omitsDefault_access : OmitsDefault toJson ofJson? "access" access none := by
  rw [toJson_eq]
  refine layout.omitsDefault_optional (fun s => by simp [layout]) fun j s h => ?_
  obtain ⟨own, hown, -, -, ha, -⟩ := ofJson?_eq_some_iff.1 h
  exact ⟨own, hown, ha⟩

theorem omitsDefault_bitField : OmitsDefault toJson ofJson? "bit_field" bitField none := by
  rw [toJson_eq]
  refine layout.omitsDefault_optional (fun s => by simp [layout]) fun j s h => ?_
  obtain ⟨own, hown, -, -, -, hb⟩ := ofJson?_eq_some_iff.1 h
  exact ⟨own, hown, hb⟩

end Symbol

namespace BaseEntry

def layout : Layout BaseEntry where
  names := ["access", "type", "is_virtual"]
  nodup := by decide
  fields b := [("access", some (.ofString b.access)), ("type", some (.ofString b.type.text)),
    ("is_virtual", b.isVirtual.map .ofString)]
  names_fields _ := rfl

theorem toJson_eq : toJson = layout.write := by
  funext ⟨a, t, v⟩
  cases v <;> rfl

theorem ofJson?_eq_some_iff {j : Json} {b : BaseEntry} : ofJson? j = some b ↔
    ∃ own, j.structure? ["access", "type", "is_virtual"] = some own ∧
      required? own "access" asString? = some b.access ∧
      required? own "type" TypeId.ofJson? = some b.type ∧
      defaulted? own "is_virtual" none asOptional? = some b.isVirtual := by
  simp only [ofJson?, Option.bind_eq_bind, Option.pure_def, Option.bind_eq_some_iff,
    Option.some.injEq]
  constructor
  · rintro ⟨own, hown, a, ha, t, ht, v, hv, rfl⟩
    exact ⟨own, hown, ha, ht, hv⟩
  · rintro ⟨own, hown, ha, ht, hv⟩
    exact ⟨own, hown, _, ha, _, ht, _, hv, rfl⟩

theorem ofJson?_toJson (b : BaseEntry) : ofJson? b.toJson = some b := by
  rw [toJson_eq, ofJson?_eq_some_iff]
  exact ⟨_, layout.structure?_write b, required?_text (layout.lookup (by simp [layout])),
    required?_type (layout.lookup (by simp [layout])),
    defaulted?_optional (layout.lookup (by simp [layout]))⟩

theorem omitsDefault_isVirtual : OmitsDefault toJson ofJson? "is_virtual" isVirtual none := by
  rw [toJson_eq]
  refine layout.omitsDefault_optional (fun b => by simp [layout]) fun j b h => ?_
  obtain ⟨own, hown, -, -, hv⟩ := ofJson?_eq_some_iff.1 h
  exact ⟨own, hown, hv⟩

end BaseEntry

namespace Entry

/-- What is written of attributes. -/
def stated (a : Attributes) : Option Json := if a.pairs.isEmpty then none else some a.toJson

theorem stated_eq_none {a : Attributes} : stated a = none ↔ a = .empty := by
  obtain ⟨_ | ⟨p, l⟩, h⟩ := a
  · exact iff_of_true rfl rfl
  · exact iff_of_false (fun h => by cases h) fun h => by cases h

def layout : Layout Entry where
  names := ["kind", "type", "attrs", "params", "symbols", "bases"]
  nodup := by decide
  fields e := [("kind", some (.ofString e.kind)), ("type", some (.ofString e.type.text)),
    ("attrs", stated e.attributes), ("params", listed Param.toJson e.params),
    ("symbols", listed Symbol.toJson e.symbols), ("bases", listed BaseEntry.toJson e.bases)]
  names_fields _ := rfl

theorem toJson_eq : toJson = layout.write := by
  funext ⟨k, t, ⟨as, _⟩, ps, ss, bs⟩
  cases as <;> cases ps <;> cases ss <;> cases bs <;> rfl

theorem ofJson?_eq_some_iff {j : Json} {e : Entry} : ofJson? j = some e ↔
    ∃ own, j.structure? ["kind", "type", "attrs", "params", "symbols", "bases"] = some own ∧
      required? own "kind" asString? = some e.kind ∧
      required? own "type" TypeId.ofJson? = some e.type ∧
      defaulted? own "attrs" .empty Attributes.ofJson? = some e.attributes ∧
      defaulted? own "params" [] (asList? Param.ofJson?) = some e.params ∧
      defaulted? own "symbols" [] (asList? Symbol.ofJson?) = some e.symbols ∧
      defaulted? own "bases" [] (asList? BaseEntry.ofJson?) = some e.bases := by
  simp only [ofJson?, Option.bind_eq_bind, Option.pure_def, Option.bind_eq_some_iff,
    Option.some.injEq]
  constructor
  · rintro ⟨own, hown, k, hk, t, ht, a, ha, ps, hps, ss, hss, bs, hbs, rfl⟩
    exact ⟨own, hown, hk, ht, ha, hps, hss, hbs⟩
  · rintro ⟨own, hown, hk, ht, ha, hps, hss, hbs⟩
    exact ⟨own, hown, _, hk, _, ht, _, ha, _, hps, _, hss, _, hbs, rfl⟩

theorem defaulted?_attributes {own : List (String × Json)} {name : String} {a : Attributes}
    (h : own.lookup name = stated a) :
    defaulted? own name .empty Attributes.ofJson? = some a := by
  rw [defaulted?, h]
  cases ho : stated a with
  | none => rw [stated_eq_none.1 ho]
  | some j =>
    rw [stated] at ho
    split at ho
    · cases ho
    · cases ho
      exact a.ofJson?_toJson

theorem ofJson?_toJson (e : Entry) : ofJson? e.toJson = some e := by
  rw [toJson_eq, ofJson?_eq_some_iff]
  exact ⟨_, layout.structure?_write e, required?_text (layout.lookup (by simp [layout])),
    required?_type (layout.lookup (by simp [layout])),
    defaulted?_attributes (layout.lookup (by simp [layout])),
    defaulted?_list Param.ofJson?_toJson (layout.lookup (by simp [layout])),
    defaulted?_list Symbol.ofJson?_toJson (layout.lookup (by simp [layout])),
    defaulted?_list BaseEntry.ofJson?_toJson (layout.lookup (by simp [layout]))⟩

theorem omitsDefault_attributes : OmitsDefault toJson ofJson? "attrs" attributes .empty := by
  rw [toJson_eq]
  refine layout.omitsDefault Attributes.ofJson? (fun e => by simp [layout])
    (fun _ => stated_eq_none) fun j e h => ?_
  obtain ⟨own, hown, -, -, ha, -⟩ := ofJson?_eq_some_iff.1 h
  exact ⟨own, hown, ha⟩

theorem omitsDefault_params : OmitsDefault toJson ofJson? "params" params [] := by
  rw [toJson_eq]
  refine layout.omitsDefault_list Param.ofJson? Param.toJson (fun e => by simp [layout])
    fun j e h => ?_
  obtain ⟨own, hown, -, -, -, hps, -⟩ := ofJson?_eq_some_iff.1 h
  exact ⟨own, hown, hps⟩

theorem omitsDefault_symbols : OmitsDefault toJson ofJson? "symbols" symbols [] := by
  rw [toJson_eq]
  refine layout.omitsDefault_list Symbol.ofJson? Symbol.toJson (fun e => by simp [layout])
    fun j e h => ?_
  obtain ⟨own, hown, -, -, -, -, hss, -⟩ := ofJson?_eq_some_iff.1 h
  exact ⟨own, hown, hss⟩

theorem omitsDefault_bases : OmitsDefault toJson ofJson? "bases" bases [] := by
  rw [toJson_eq]
  refine layout.omitsDefault_list BaseEntry.ofJson? BaseEntry.toJson (fun e => by simp [layout])
    fun j e h => ?_
  obtain ⟨own, hown, -, -, -, -, -, hbs⟩ := ofJson?_eq_some_iff.1 h
  exact ⟨own, hown, hbs⟩

end Entry

namespace Table

def layout : Layout Table where
  names := ["typeTable", "globalSymbols"]
  nodup := by decide
  fields t := [("typeTable", some (.array (t.types.map Entry.toJson))),
    ("globalSymbols", some (.array (t.globals.map Symbol.toJson)))]
  names_fields _ := rfl

theorem ofJson?_eq_some_iff {j : Json} {t : Table} : ofJson? j = some t ↔
    ∃ own, j.structure? ["typeTable", "globalSymbols"] = some own ∧
      defaulted? own "typeTable" [] (asList? Entry.ofJson?) = some t.types ∧
      defaulted? own "globalSymbols" [] (asList? Symbol.ofJson?) = some t.globals := by
  simp only [ofJson?, Option.bind_eq_bind, Option.pure_def, Option.bind_eq_some_iff,
    Option.some.injEq]
  constructor
  · rintro ⟨own, hown, es, hes, gs, hgs, rfl⟩
    exact ⟨own, hown, hes, hgs⟩
  · rintro ⟨own, hown, hes, hgs⟩
    exact ⟨own, hown, _, hes, _, hgs, rfl⟩

theorem ofJson?_toJson (t : Table) : ofJson? t.toJson = some t := by
  rw [ofJson?_eq_some_iff]
  exact ⟨_, layout.structure?_write t,
    defaulted?_array Entry.ofJson?_toJson (layout.lookup (by simp [layout])),
    defaulted?_array Symbol.ofJson?_toJson (layout.lookup (by simp [layout]))⟩

/-- **A table is read back from its text,** whatever its strings and attributes are: `Table.read?`
undoes `Table.write`. What is left out of the text has the default with which it is read
(`OmitsDefault`). -/
theorem persisted :
    (∀ t : Table, read? t.write = some t) ∧
      OmitsDefault Param.toJson Param.ofJson? "name" Param.name none ∧
      OmitsDefault Symbol.toJson Symbol.ofJson? "name" Symbol.name none ∧
      OmitsDefault Symbol.toJson Symbol.ofJson? "access" Symbol.access none ∧
      OmitsDefault Symbol.toJson Symbol.ofJson? "bit_field" Symbol.bitField none ∧
      OmitsDefault BaseEntry.toJson BaseEntry.ofJson? "is_virtual" BaseEntry.isVirtual none ∧
      OmitsDefault Entry.toJson Entry.ofJson? "attrs" Entry.attributes .empty ∧
      OmitsDefault Entry.toJson Entry.ofJson? "params" Entry.params [] ∧
      OmitsDefault Entry.toJson Entry.ofJson? "symbols" Entry.symbols [] ∧
      OmitsDefault Entry.toJson Entry.ofJson? "bases" Entry.bases [] := by
  refine ⟨fun t => ?_, Param.omitsDefault_name, Symbol.omitsDefault_name,
    Symbol.omitsDefault_access, Symbol.omitsDefault_bitField, BaseEntry.omitsDefault_isVirtual,
    Entry.omitsDefault_attributes, Entry.omitsDefault_params, Entry.omitsDefault_symbols,
    Entry.omitsDefault_bases⟩
  rw [read?, write, parse?_pretty]
  exact t.ofJson?_toJson

end Table

end TypeLedger
