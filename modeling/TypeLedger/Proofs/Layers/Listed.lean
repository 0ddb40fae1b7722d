import Mathlib.Data.List.Dedup
import TypeLedger.Proofs.Layers.Built

/-!
# Which identifiers an environment lists

* `Accepted`: an entry with what it has been read as. `Environment.accepted`: those entries of a
  list that are added, up to the first with a fault.
* `Environment.Stated`: an environment that entries make, with the accepted entries of each layer.
* `Layer.Holds` is what a layer has of its entries: `Holds.accept` is the step of one entry,
  `Recorded.add` the run over a list of them.
* `listed_exactly`: the identifiers that are listed are those of accepted entries, and the record of
  each is that of its last entry in the topmost layer that has one.
-/

namespace TypeLedger

/-- An entry, with the record and the bases that `Entry.readRecord` has read it as. -/
structure Accepted where
  entry : Entry
  tag : Tag
  record : TypeRecord
  bases : List BaseEdge
  read : entry.readRecord tag = .ok (record, bases)

/-- The identifier that the entry is for. -/
def Accepted.id (a : Accepted) : TypeId := a.entry.type

theorem Accepted.record_id (a : Accepted) : a.record.id = a.id := (Entry.readRecord_ok a.read).1

namespace Environment

/-! ## 1. Accepted entries -/

/-- The entries of a list that are added: those in front of the first with a fault. -/
def accepted : List Entry → Naming → List Accepted
  | [], _ => []
  | e :: es, k =>
    match h : e.readRecord (k.tagEntry e).1 with
    | .ok (r, edges) => ⟨e, (k.tagEntry e).1, r, edges, h⟩ :: accepted es (k.tagEntry e).2
    | .error _ => []

theorem accepted_cons_ok {e : Entry} {k : Naming} {r : TypeRecord} {edges : List BaseEdge}
    (h : e.readRecord (k.tagEntry e).1 = .ok (r, edges)) (es : List Entry) :
    accepted (e :: es) k = ⟨e, (k.tagEntry e).1, r, edges, h⟩ :: accepted es (k.tagEntry e).2 := by
  rw [accepted]
  split
  · rename_i r' edges' h'
    obtain ⟨rfl, rfl⟩ := Prod.mk.inj (Except.ok.inj (h'.symm.trans h))
    rfl
  · rename_i f h'
    cases h'.symm.trans h

theorem accepted_cons_error {e : Entry} {k : Naming} {f : TableFault}
    (h : e.readRecord (k.tagEntry e).1 = .error f) (es : List Entry) :
    accepted (e :: es) k = [] := by
  rw [accepted]
  split
  · rename_i r edges h'
    cases h'.symm.trans h
  · rfl

/-- The environments that entries make, with the `Accepted` entries of each layer, those of the
topmost one first. Entries are added to the topmost layer, as far as they have no fault, or in a
layer of their own. -/
inductive Stated : List (List Accepted) → Environment → Prop
  | initial : Stated [[]] .initial
  | add {as : List Accepted} {history : List (List Accepted)} {env : Environment}
    (h : Stated (as :: history) env) (es : List Entry) (k : Naming) :
    Stated ((as ++ accepted es k) :: history) (env.add es k).1.1
  | extend {history : List (List Accepted)} {env env' : Environment} (h : Stated history env)
    {es : List Entry} {k : Naming} (he : (env.extend es k).1 = .ok env') :
    Stated (accepted es k :: history) env'

/-- The record of the last entry for an identifier. -/
def lastOf (id : TypeId) (as : List Accepted) : Option TypeRecord :=
  (as.reverse.find? fun a => a.id = id).map Accepted.record

/-- The record of the last entry for an identifier in the topmost layer that has one. -/
def nearest (id : TypeId) (history : List (List Accepted)) : Option TypeRecord :=
  history.findSome? (lastOf id)

theorem lastOf_concat (id : TypeId) (as : List Accepted) (a : Accepted) :
    lastOf id (as ++ [a]) = if a.id = id then some a.record else lastOf id as := by
  unfold lastOf
  rw [List.reverse_concat, List.find?_cons]
  by_cases h : a.id = id <;> simp [h]

theorem isSome_lastOf {id : TypeId} {as : List Accepted} :
    (lastOf id as).isSome = true ↔ ∃ a ∈ as, a.id = id := by
  simp [lastOf]

theorem isSome_nearest {id : TypeId} {history : List (List Accepted)} :
    (nearest id history).isSome = true ↔ ∃ as ∈ history, ∃ a ∈ as, a.id = id := by
  simp only [nearest, List.findSome?_isSome_iff, isSome_lastOf]

end Environment

/-! ## 2. One layer -/

/-- The layer has what the entries make of the layer `start`. -/
structure Layer.Holds (start : Layer) (as : List Accepted) (l : Layer) : Prop where
  lookup : ∀ i, l.records.lookup i = (Environment.lastOf i as).or (start.records.lookup i)
  mem_order : ∀ i, i ∈ l.order ↔ ∃ a ∈ as, a.id = i

theorem Layer.holds_start {start : Layer} (h : start.order = []) : Layer.Holds start [] start where
  lookup := fun _ => rfl
  mem_order := fun i => by simp [h]

/-- **One entry more** is the last one for its identifier; the others keep theirs. -/
theorem Layer.Holds.accept {start l : Layer} {as : List Accepted} (h : Layer.Holds start as l)
    (a : Accepted) : Layer.Holds start (as ++ [a]) (l.accept a.record a.bases) := by
  constructor
  · intro i
    rw [Environment.lastOf_concat]
    by_cases hi : a.id = i
    · subst hi
      rw [if_pos rfl, ← a.record_id, Layer.accept, Keyed.lookup_set_self]
      rfl
    · have hne : i ≠ a.record.id := fun he => hi (a.record_id.symm.trans he.symm)
      rw [if_neg hi, Layer.accept, Keyed.lookup_set_of_ne hne, h.lookup]
  · intro i
    rw [Environment.mem_order_accept, h.mem_order, a.record_id]
    simp [eq_comm]

namespace Environment

/-! ## 3. All layers -/

/-- The record of a fundamental type. -/
def fundamentalRecord? (i : TypeId) : Option TypeRecord :=
  (Fundamental.table.lookup i).map fun s => ⟨i, .none, .reserved s⟩

theorem lookup_fundamental (i : TypeId) :
    Layer.fundamental.records.lookup i = fundamentalRecord? i := by
  unfold Layer.fundamental fundamentalRecord?
  induction Fundamental.table with
  | nil => rfl
  | cons p ps ih =>
    rw [List.map_cons, List.lookup_cons, List.lookup_cons, ih]
    cases hi : i == p.1 with
    | true =>
      obtain rfl := eq_of_beq hi
      rfl
    | false => rfl

theorem isSome_fundamentalRecord? (i : TypeId) :
    (fundamentalRecord? i).isSome = Fundamental.isFundamental i := Option.isSome_map

/-- The layers hold what the accepted entries make: the lowest one of the fundamental types, the
others of nothing. -/
inductive Recorded : List (List Accepted) → List Layer → Prop
  | lowest {as : List Accepted} {l : Layer} (h : Layer.Holds .fundamental as l) : Recorded [as] [l]
  | above {as : List Accepted} {l : Layer} {history : List (List Accepted)} {ls : List Layer}
    (h : Layer.Holds {} as l) (hs : Recorded history ls) : Recorded (as :: history) (l :: ls)

theorem Recorded.accept {as : List Accepted} {history : List (List Accepted)} {env : Environment}
    (h : Recorded (as :: history) env.layers) (a : Accepted) :
    Recorded ((as ++ [a]) :: history) (env.accept a.record a.bases).layers := by
  generalize hl : env.layers = ls at h
  have htop : (env.accept a.record a.bases).layers =
      env.top.accept a.record a.bases :: env.below := rfl
  rw [htop]
  cases h with
  | lowest h =>
    obtain ⟨rfl, hbelow⟩ := List.cons.inj hl
    rw [hbelow]
    exact .lowest (h.accept a)
  | above h hs =>
    obtain ⟨rfl, hbelow⟩ := List.cons.inj hl
    rw [hbelow]
    exact .above (h.accept a) hs

/-- **A list of entries** is `Recorded` up to the first with a fault. -/
theorem Recorded.add {as : List Accepted} {history : List (List Accepted)} {env : Environment}
    (h : Recorded (as :: history) env.layers) (es : List Entry) (k : Naming) :
    Recorded ((as ++ accepted es k) :: history) (env.add es k).1.1.layers := by
  induction es generalizing as env k with
  | nil => rwa [accepted, List.append_nil]
  | cons e es ih =>
    rw [add_cons]
    cases hr : e.readRecord (k.tagEntry e).1 with
    | error f =>
      rw [accepted_cons_error hr, List.append_nil]
      exact h
    | ok v =>
      rw [accepted_cons_ok hr, List.append_cons]
      exact ih (h.accept ⟨e, _, v.1, v.2, hr⟩) _

theorem Stated.recorded {history : List (List Accepted)} {env : Environment}
    (h : Stated history env) : Recorded history env.layers := by
  induction h with
  | initial => exact .lowest (Layer.holds_start rfl)
  | add _ es k ih => exact ih.add es k
  | @extend history env env' _ es k he ih =>
    rw [← add_of_checked he]
    have hraised : Recorded ([] :: history) env.raised.layers :=
      .above (Layer.holds_start rfl) ih
    exact hraised.add es k

theorem Stated.reached {history : List (List Accepted)} {env : Environment}
    (h : Stated history env) : env.Reached := by
  induction h with
  | initial => exact .initial
  | add _ es k ih => exact ih.add es k
  | extend _ he ih => exact ih.extend he

/-- **Listed are the identifiers of accepted entries** (`idsIn`). What a layer has a record for, and
takes out of the list below, it lists itself. -/
theorem Recorded.mem_ids {history : List (List Accepted)} {ls : List Layer}
    (h : Recorded history ls) (i : TypeId) :
    i ∈ idsIn ls ↔ ∃ as ∈ history, ∃ a ∈ as, a.id = i := by
  induction h with
  | lowest h => simp [idsIn, h.mem_order]
  | @above as l history ls h hs ih =>
    have hhas : Keyed.has i l.records = false ↔ i ∉ l.order := by
      rw [h.mem_order, ← isSome_lastOf, Keyed.has, h.lookup]
      simp
    rw [idsIn, List.mem_append, List.mem_filter, Bool.not_eq_true', hhas, ih, h.mem_order]
    by_cases hi : ∃ a ∈ as, a.id = i <;> simp [hi]

/-- **A record is that of the last entry** in the topmost layer that has one (`nearest`), or that of
a fundamental type. -/
theorem Recorded.lookup {history : List (List Accepted)} {ls : List Layer}
    (h : Recorded history ls) (i : TypeId) :
    lookupIn i ls = (nearest i history).or (fundamentalRecord? i) := by
  induction h with
  | @lowest as l h =>
    rw [nearest, List.findSome?_cons, lookupIn, h.lookup, lookup_fundamental]
    cases lastOf i as with
    | some r => rfl
    | none => cases fundamentalRecord? i <;> rfl
  | @above as l history ls h hs ih =>
    rw [nearest, List.findSome?_cons, lookupIn, h.lookup, ih]
    cases lastOf i as with
    | some r => rfl
    | none => rfl

/-! ## 4. Identifiers and records -/

/-- **Identifiers are listed exactly.** An environment is made of entries, in any number of calls
and layers (`Stated`). No identifier is listed twice, and those listed are those that some layer has
accepted an entry for; there are as many as different ones among the accepted entries. Those that
have a record are listed or fundamental; the record is that of the last accepted entry in the
topmost layer that has one (`nearest`), and only if none has, that of the fundamental type. -/
theorem listed_exactly {history : List (List Accepted)} {env : Environment}
    (h : Stated history env) :
    env.ids.Nodup ∧ (∀ i, i ∈ env.ids ↔ ∃ as ∈ history, ∃ a ∈ as, a.id = i) ∧
      env.size = (history.flatten.map Accepted.id).dedup.length ∧
      (∀ i, (env.lookup? i).isSome = true ↔ i ∈ env.ids ∨ Fundamental.isFundamental i = true) ∧
      (∀ i, i ∈ env.ids → env.lookup? i = nearest i history) ∧
      ∀ i, i ∉ env.ids → env.lookup? i = fundamentalRecord? i := by
  have hrecorded := h.recorded
  have hnodup := h.reached.built.nodup_ids
  have hids : ∀ i, i ∈ env.ids ↔ ∃ as ∈ history, ∃ a ∈ as, a.id = i := hrecorded.mem_ids
  have hlookup : ∀ i, env.lookup? i = (nearest i history).or (fundamentalRecord? i) :=
    hrecorded.lookup
  have hnear : ∀ i, (nearest i history).isSome = true ↔ i ∈ env.ids := fun i => by
    rw [hids, isSome_nearest]
  refine ⟨hnodup, hids, ?_, fun i => ?_, fun i hi => ?_, fun i hi => ?_⟩
  · have hperm : env.ids.Perm (history.flatten.map Accepted.id).dedup := by
      refine (List.perm_ext_iff_of_nodup hnodup (List.nodup_dedup _)).2 fun i => ?_
      rw [hids, List.mem_dedup]
      simp only [List.mem_map, List.mem_flatten]
      constructor
      · rintro ⟨as, has, a, ha, rfl⟩
        exact ⟨a, ⟨as, has, ha⟩, rfl⟩
      · rintro ⟨a, ⟨as, has, ha⟩, rfl⟩
        exact ⟨as, has, a, ha, rfl⟩
    exact hperm.length_eq
  · rw [hlookup, Option.isSome_or, Bool.or_eq_true, hnear, isSome_fundamentalRecord?]
  · obtain ⟨r, hr⟩ := Option.isSome_iff_exists.1 ((hnear i).2 hi)
    rw [hlookup, hr]
    rfl
  · have hnone : nearest i history = none := by
      rw [← Option.not_isSome_iff_eq_none, hnear]
      exact hi
    rw [hlookup, hnone]
    rfl

/-- A pointer. -/
def pointerTo (id target : String) : Entry where
  kind := "pointerType"
  type := ⟨id⟩
  attributes := .ofList [("ref", target)]

/-- Two entries for one pointer, and one for a fundamental type between them. -/
def lowerEntries : List Entry :=
  [pointerTo "Pointer0" "int", pointerTo "char" "int", pointerTo "Pointer0" "char"]

/-- An array whose size is no number stands between two pointers. -/
def haltingEntries : List Entry :=
  [pointerTo "Pointer1" "Pointer0",
    { kind := "arrayType", type := ⟨"Array0"⟩, attributes := .ofList [("array_size", "-1")] },
    pointerTo "Pointer2" "int"]

/-- The first pointer is stated once more in a layer of its own, and then the entries that cannot
all be added. The fundamental type is listed where it has been stated. -/
theorem listed_exactly_halting :
    ∃ history env, Stated history env ∧ history.map List.length = [2, 3] ∧
      env.ids = [⟨"char"⟩, ⟨"Pointer0"⟩, ⟨"Pointer1"⟩] ∧
      env.size = (history.flatten.map Accepted.id).dedup.length ∧
      env.lookup? ⟨"char"⟩ = nearest ⟨"char"⟩ history ∧
      env.lookup? ⟨"Pointer0"⟩ = nearest ⟨"Pointer0"⟩ history ∧
      env.lookup? ⟨"int"⟩ = fundamentalRecord? ⟨"int"⟩ ∧ env.lookup? ⟨"Array0"⟩ = none := by
  let lower := initial.add lowerEntries {}
  let upper := lower.1.1.raised.add [pointerTo "Pointer0" "Pointer0"] lower.2
  have hupper :
      (lower.1.1.extend [pointerTo "Pointer0" "Pointer0"] lower.2).1 = .ok upper.1.1 := rfl
  have hstated := ((Stated.initial.add lowerEntries {}).extend hupper).add haltingEntries upper.2
  obtain ⟨-, -, hsize, hsome, hlisted, hunlisted⟩ := listed_exactly hstated
  let env := (upper.1.1.add haltingEntries upper.2).1.1
  have hids : env.ids = [⟨"char"⟩, ⟨"Pointer0"⟩, ⟨"Pointer1"⟩] := by decide +kernel
  refine ⟨_, _, hstated, by decide +kernel, hids, hsize, hlisted _ ?_, hlisted _ ?_,
    hunlisted _ ?_, ?_⟩
  · rw [hids]; decide
  · rw [hids]; decide
  · rw [hids]; decide
  · have hnone : ¬(env.lookup? ⟨"Array0"⟩).isSome = true := by
      rw [hsome, hids]
      decide
    exact Option.not_isSome_iff_eq_none.1 hnone

end Environment

end TypeLedger
