import TypeLedger.Proofs.Registration.Storing

/-!
# Registries that store records

* `Registry.Stocked`: a registry, and what it has reserved, stored and stated. What is behind a call
  is `Stocked.run`, behind a sequence of calls `Stocked.after`.
* `Stocked.ids`, `record?`, `bases`, `size`, `table`, `stats` and `dump` read what is stored, and
  nothing else. `table` groups the stored entries by the category that they were stored with.
* `Stocked.Kept`: every row has its record. `Kept.run` is the step, `kept_after` the run.
* `Kept.record?_eq`, `Kept.bases_eq` and `Kept.perm_entries`: what is stored is what the registry
  says of its rows and of the fundamental types met.
-/

namespace TypeLedger

namespace Registry

/-! ## 1. Calls -/

/-- A `Registry`, and what it has reserved, stored and stated (`Store`). -/
structure Stocked where
  registry : Registry
  store : Store := {}

namespace Stocked

/-- The registration of a type that is about to begin. -/
def desk (t : CType) (f : Stocked) : Desk := ⟨.visit t, [], f.registry.ledger, f.store⟩

/-- The answer of a registration that has come to its end, and what it leaves. -/
def leave (f : Stocked) (k : Desk) : TypeId × Stocked :=
  (k.answer, ⟨{ f.registry with ledger := k.ledger }, k.store⟩)

/-- The identifier of a type. If it is registered now (`Desk.run`), the record of every type that
gets an identifier is stored. -/
def register (t : CType) (f : Stocked) : TypeId × Stocked :=
  f.leave (Desk.run f.registry.context f.registry.detail [t] (f.desk t)
    (Ledger.Covered.single f.registry.context t))

/-- A registration whose moves have been counted. -/
theorem register_eq_of_runFor {t : CType} {f : Stocked} (n : Nat)
    (h : (Desk.runFor f.registry.context f.registry.detail n (f.desk t)).isSome = true) :
    f.register t =
      f.leave ((Desk.runFor f.registry.context f.registry.detail n (f.desk t)).get h) :=
  congrArg f.leave (Desk.run_eq_of_runFor _ (Option.some_get h).symm)

/-- The identifier that the table shows for a type, which is registered now if it is not yet. -/
def typeName (t : CType) (f : Stocked) : TypeId × Stocked :=
  let (id, f) := f.register t
  (f.registry.shown id, f)

/-- Registers two types and states the second as a base of the first. -/
def addInheritance (derived base : CType) (access : Access) (isVirtual : Bool) (f : Stocked) :
    Stocked :=
  let (d, f) := f.register derived
  let (b, f) := f.register base
  let edge : BaseEdge := ⟨access, b, isVirtual⟩
  ⟨{ f.registry with added := f.registry.added.add d edge }, f.store.addBase d edge⟩

/-- The stored record under an identifier (`Store.record?`). -/
def record? (f : Stocked) (id : TypeId) : Option TypeRecord := f.store.record? id

/-- The name of the aggregate whose record is stored, given to it now if it has none yet. -/
def nameOf (id : TypeId) (f : Stocked) : Option String × Stocked :=
  match (f.record? id).bind fun record => record.body.tag? with
  | some tag =>
    let (name, naming) := Naming.name tag f.registry.ledger.naming
    (some name, { f with registry.ledger.naming := naming })
  | none => (none, f)

/-- A call on a registry that stores records. -/
def run : Call → Stocked → Stocked
  | .register t, f => (f.register t).2
  | .typeName t, f => (f.typeName t).2
  | .addInheritance d b a v, f => f.addInheritance d b a v
  | .nameOf id, f => (f.nameOf id).2

/-- The registry behind a sequence of calls. -/
def after (f : Stocked) (calls : List Call) : Stocked := calls.foldl (fun f c => run c f) f

/-! ## 2. Reading what is stored -/

/-- The identifier of a type that has been registered. -/
def lookup? (f : Stocked) (t : CType) : Option TypeId := f.registry.lookup? t

/-- The reserved identifiers in their order. -/
def ids (f : Stocked) : List TypeId := f.store.order

/-- The identifiers that have a stored record. -/
def keys (f : Stocked) : List TypeId := f.store.entries.map Prod.fst

/-- The number of stored records. -/
def size (f : Stocked) : Nat := f.store.entries.length

/-- The bases beside the records. -/
def bases (f : Stocked) (id : TypeId) : List BaseEdge := f.store.beside.bases id

/-- The entry that states a stored record (`Entry.ofRecord`). -/
def entry (f : Stocked) (e : Stored) : Entry :=
  .ofRecord f.registry.shown f.registry.ledger.naming e.kind (f.bases e.record.id) e.record

/-- Puts the entry of an identifier behind those of its category. An identifier without a record is
passed over, and so is a record without a category. -/
def sort (f : Stocked) (groups : List (Category × List Entry)) (id : TypeId) :
    List (Category × List Entry) :=
  match f.store.entries.lookup id with
  | none => groups
  | some e =>
    match e.category with
    | none => groups
    | some c => Keyed.set c ((groups.lookup c).getD [] ++ [f.entry e]) groups

/-- The entries of the reserved identifiers, by category. -/
def groups (f : Stocked) : List (Category × List Entry) := f.ids.foldl f.sort []

/-- The entries of a category. -/
def group (f : Stocked) (c : Category) : List Entry := (f.groups.lookup c).getD []

/-- The stored types as a table: the groups in the order of the categories, with the entry for
labels, if it is asked for, behind the pointers. -/
def table (f : Stocked) : Table where
  types := Category.all.flatMap fun c =>
    f.group c ++ if c = .pointer ∧ f.registry.hasLabel then [f.registry.labelEntry] else []

/-- How many records are stored with each category, and without one. -/
def stats (f : Stocked) : Stats where
  perCategory := Category.all.map fun c =>
    (c, f.store.entries.countP fun p => p.2.category == some c)
  fundamental := f.store.entries.countP fun p => p.2.category == none
  memoized := f.registry.ledger.memo.length

/-- The stored types in the order in which they were reserved, a line each. -/
def dump (f : Stocked) : List String :=
  f.ids.filterMap fun id => (f.store.entries.lookup id).map fun e => id.text ++ ": " ++ e.words

end Stocked

/-! ## 3. The record of a row -/

section Stored

variable {r : Registry}

theorem declaredIn_eq (r : Registry) (row : Row) :
    r.declaredIn row = (r.context.basesOf row.type).map r.ledger.edge := by
  unfold declaredIn Context.basesOf Context.recordOf?
  split
  · cases r.context.classify row.type <;> rfl
  · rfl

/-- The record of a row has the tag of the row. -/
theorem Kept.tag?_body_eq (h : r.Kept) {row : Row} (hm : row ∈ r.ledger.rows) :
    (r.body row).tag? = row.tag := by
  have htag := h.sound.row_tag row hm
  unfold body
  unfold Context.tagName? at htag
  split
  · rename_i hq
    rw [if_pos hq] at htag
    cases hs : r.context.classify row.type <;> simp only [hs] at htag ⊢ <;>
      cases ht : row.tag <;> rw [ht] at htag <;> first | rfl | cases htag
  · rename_i hq
    rw [if_neg hq] at htag
    cases ht : row.tag with
    | none => rfl
    | some tag => rw [ht] at htag; cases htag

/-- The record of a row (`rowRecord`), and how it is stored. -/
def stored (r : Registry) (row : Row) : Stored where
  record := r.rowRecord row
  category := some row.category
  kind := r.kind row
  words := r.context.describe row.type

/-- Answers are taken up in the order of what they are the answers of. -/
theorem zipWith_answers {α β γ : Type} (f : α → β → γ) (g : α → β) (as : List α) (bs : List β) :
    List.zipWith f as (as.map g ++ bs) = as.map fun a => f a (g a) := by
  induction as with
  | nil => rfl
  | cons a as ih => exact congrArg (f a (g a) :: ·) ih

/-- The members of a record by the answers of its components. -/
theorem members_answers (r : Registry) (d : RecordDecl) :
    Draft.members (d.members.getD []) (d.types.map r.ledger.idOf) =
      (d.members.getD []).map r.member := by
  rw [RecordDecl.types, List.map_append, List.map_map]
  exact zipWith_answers _ (r.ledger.idOf ∘ MemberDecl.type) _ _

/-- The bases of a record by the answers of its components. -/
theorem edges_answers (r : Registry) (d : RecordDecl) :
    Draft.edges d.bases ((d.types.map r.ledger.idOf).drop (d.members.getD []).length) =
      d.bases.map r.ledger.edge := by
  have hdrop : (d.types.map r.ledger.idOf).drop (d.members.getD []).length =
      d.bases.map (r.ledger.idOf ∘ BaseDecl.type) ++ [] := by
    rw [RecordDecl.types, List.map_append, List.map_map, List.map_map, List.append_nil]
    exact List.drop_left' (by simp)
  rw [hdrop]
  exact zipWith_answers _ (r.ledger.idOf ∘ BaseDecl.type) _ _

/-- **The record that is stored for a row** is the one that the registry says, with the bases stated
on top of those declared. -/
theorem Kept.stored_eq (h : r.Kept) {row : Row} (hm : row ∈ r.ledger.rows) :
    (Ledger.stored r.context r.ledger row).addBases (r.added.bases row.id) = r.stored row := by
  have hcat := h.sound.row_category row hm
  have hbases : r.bases row.id = r.declaredIn row ++ r.added.bases row.id := by
    rw [bases, declaredBases, h.row?_of_mem hm]
    rfl
  unfold Ledger.stored Draft.stored stored rowRecord body kind Context.components
  unfold declaredIn at hbases
  unfold Context.category? at hcat
  by_cases hq : row.type.quals.isEmpty = true
  · simp only [hq, if_true] at hcat hbases ⊢
    cases hs : r.context.classify row.type with
    | builtin s =>
      simp only [hs] at hcat ⊢
      split at hcat
      · cases hcat
      · rw [← hcat]
        rfl
    | record d =>
      simp only [hs] at hcat hbases ⊢
      rw [members_answers, edges_answers]
      cases hk : d.key with
      | classKey =>
        simp only [hk] at hcat ⊢
        rw [← hcat, hbases]
        rfl
      | _ =>
        simp only [hk] at hcat ⊢
        rw [← hcat]
        rfl
    | function t ps v =>
      simp only [hs] at hcat ⊢
      rw [← hcat]
      simp [Stored.addBases, TypeBody.addBases, Function.comp_def]
    | _ =>
      simp only [hs] at hcat ⊢
      rw [← hcat]
      rfl
  · simp only [hq, if_false, Bool.false_eq_true] at hcat ⊢
    rw [← hcat]
    rfl

end Stored

/-! ## 4. What calls keep -/

/-- Giving an aggregate a name adds no row and states no base. -/
theorem unchanged_nameOf (r : Registry) (id : TypeId) :
    (r.nameOf id).2.ledger.rows = r.ledger.rows ∧
      (r.nameOf id).2.ledger.fundamentals = r.ledger.fundamentals ∧
      (r.nameOf id).2.added = r.added := by
  unfold nameOf
  split <;> exact ⟨rfl, rfl, rfl⟩

namespace Stocked

variable {f : Stocked}

/-- The registry is kept (`Registry.Kept`), and every row has its record (`Ledger.Storing`). -/
structure Kept (f : Stocked) : Prop where
  registry : f.registry.Kept
  storing : Ledger.Storing f.registry.context f.registry.added f.registry.ledger f.store []

theorem kept_fresh {r : Registry} (hr : r.Fresh) : (Stocked.mk r {}).Kept :=
  ⟨hr.kept, by rw [hr.added]; exact Ledger.storing_empty _ _ hr.rows hr.fundamentals⟩

/-- **Storing records changes no identifier,** and every row has its record afterwards
(`Stocked.Kept`). -/
theorem Kept.register (h : f.Kept) (t : CType) :
    (f.register t).1 = (f.registry.register t).1 ∧
      (f.register t).2.registry = (f.registry.register t).2 ∧ (f.register t).2.Kept := by
  obtain ⟨hledger, hphase, hstoring⟩ :=
    Desk.run_spec f.registry.detail t h.registry.sound h.registry.closed h.storing
  have hanswer : (f.register t).1 = (f.registry.register t).1 := Desk.answer_of_phase hphase
  have hregistry : (f.register t).2.registry = (f.registry.register t).2 :=
    congrArg (fun ledger => { f.registry with ledger }) hledger
  refine ⟨hanswer, hregistry, hregistry ▸ (register_kept h.registry t).1, ?_⟩
  rw [hregistry]
  exact hstoring

/-! ## 5. What is stored -/

/-- **Every row has its record** among the `entries`, under its identifier, and stored as what it
is. -/
theorem Kept.lookup_row (h : f.Kept) {row : Row} (hm : row ∈ f.registry.ledger.rows) :
    f.store.entries.lookup row.id = some (f.registry.stored row) := by
  rw [(h.storing.all_finished hm).entry, h.registry.stored_eq hm]

/-- What has no row is stored if it is a fundamental type that has been met; its bases are those
that have been stated. -/
theorem Kept.of_not_row (h : f.Kept) {id : TypeId} (hrow : f.registry.row? id = none) :
    f.store.beside.bases id = f.registry.added.bases id ∧ f.store.entries.lookup id =
      (f.registry.ledger.fundamentals.lookup id).map (Stored.fundamental f.registry.context) :=
  h.storing.others id fun row hm hid => List.find?_eq_none.1 hrow row hm (beq_iff_eq.2 hid)

/-- **The stored records** are those that the registry says. -/
theorem Kept.record?_eq (h : f.Kept) (id : TypeId) : f.record? id = f.registry.record? id := by
  rw [Stocked.record?, Store.record?, Registry.record?]
  cases hrow : f.registry.row? id with
  | some row =>
    obtain ⟨hm, rfl⟩ := mem_of_row? hrow
    rw [h.lookup_row hm]
    rfl
  | none =>
    rw [(h.of_not_row hrow).2, Option.map_map]
    cases hl : f.registry.ledger.fundamentals.lookup id with
    | none => rfl
    | some s =>
      have hid := (h.registry.sound.spelt _ (Keyed.mem_of_lookup hl)).1
      simp [Stored.fundamental, ← hid]

/-- **The reserved identifiers** are those of the rows, in their order. -/
theorem Kept.ids_eq (h : f.Kept) : f.ids = f.registry.ids := h.storing.order

/-- **The `bases` beside the records** are those that the registry says. -/
theorem Kept.bases_eq (h : f.Kept) (id : TypeId) : f.bases id = f.registry.bases id := by
  rw [Registry.bases, declaredBases]
  cases hrow : f.registry.row? id with
  | some row =>
    obtain ⟨hm, rfl⟩ := mem_of_row? hrow
    rw [Option.elim_some, declaredIn_eq]
    exact (h.storing.all_finished hm).beside
  | none => exact (h.of_not_row hrow).1

/-- The tag in the stored record of a row is the tag of the row. -/
theorem Kept.tag?_eq (h : f.Kept) (id : TypeId) :
    ((f.record? id).bind fun record => record.body.tag?) = (f.registry.row? id).bind Row.tag := by
  rw [h.record?_eq, Registry.record?]
  cases hrow : f.registry.row? id with
  | some row => exact h.registry.tag?_body_eq (mem_of_row? hrow).1
  | none => cases f.registry.ledger.fundamentals.lookup id <;> rfl

/-- **The report of what is stored** is that of the rows. -/
theorem Kept.dump_eq (h : f.Kept) : f.dump = f.registry.dump := by
  rw [Stocked.dump, h.ids_eq, Registry.ids, List.filterMap_map, Registry.dump,
    ← List.filterMap_eq_map]
  refine List.filterMap_congr fun row hm => ?_
  rw [Function.comp_apply, h.lookup_row hm]
  rfl

theorem Kept.nameOf (h : f.Kept) (id : TypeId) :
    (f.nameOf id).1 = (f.registry.nameOf id).1 ∧
      (f.nameOf id).2.registry = (f.registry.nameOf id).2 ∧ (f.nameOf id).2.Kept := by
  have heq : (f.nameOf id).1 = (f.registry.nameOf id).1 ∧
      (f.nameOf id).2.registry = (f.registry.nameOf id).2 ∧ (f.nameOf id).2.store = f.store := by
    unfold Stocked.nameOf Registry.nameOf
    rw [h.tag?_eq]
    cases (f.registry.row? id).bind Row.tag <;> exact ⟨rfl, rfl, rfl⟩
  obtain ⟨hname, hregistry, hstore⟩ := heq
  obtain ⟨hk, hl⟩ := nameOf_kept h.registry id
  obtain ⟨hrows, hfund, hadded⟩ := unchanged_nameOf f.registry id
  refine ⟨hname, hregistry, hregistry ▸ hk, ?_⟩
  rw [hregistry, hstore, hl.context, hadded]
  exact h.storing.mono h.registry.sound (hl.context ▸ hk.sound) hl.ledger hrows hfund

theorem Kept.addInheritance (h : f.Kept) (d b : CType) (a : Access) (v : Bool) :
    (f.addInheritance d b a v).registry = f.registry.addInheritance d b a v ∧
      (f.addInheritance d b a v).Kept := by
  obtain ⟨hd, hrd, hkd⟩ := h.register d
  obtain ⟨hb, hrb, hkb⟩ := hkd.register b
  obtain ⟨-, -, hknown, hid⟩ := register_kept h.registry d
  obtain ⟨-, hlater, -, -⟩ := register_kept hkd.registry b
  have hregistry : (f.addInheritance d b a v).registry = f.registry.addInheritance d b a v := by
    show { ((f.register d).2.register b).2.registry with
      added := ((f.register d).2.register b).2.registry.added.add (f.register d).1
        ⟨a, ((f.register d).2.register b).1, v⟩ } = _
    rw [hrb, hd, hb, hrd]
    rfl
  refine ⟨hregistry, ⟨hkb.registry.sound, hkb.registry.closed⟩, ?_⟩
  rw [← hrb] at hlater
  rw [← hrd] at hknown hid
  -- the derived type still has the identifier that it was answered with
  have hstays : ((f.register d).2.register b).2.registry.ledger.idOf d = (f.register d).1 :=
    (hlater.idOf_eq hkd.registry hkb.registry hknown).trans (hd.trans hid).symm
  have hrow : ∀ c n, (f.register d).1 = Category.id c n →
      ∃ row ∈ ((f.register d).2.register b).2.registry.ledger.rows, row.id = (f.register d).1 := by
    intro c n he
    rw [← hstays] at he ⊢
    exact hkb.registry.sound.row_of_known (hknown.mono hlater.ledger) he
  exact hkb.storing.addBase hrow _

/-- **A call on a registry that stores records** is the call on the registry, and keeps every row
with its record (`Stocked.Kept`). -/
theorem Kept.run (h : f.Kept) (c : Call) :
    (run c f).registry = c.run f.registry ∧ (run c f).Kept := by
  cases c with
  | register t => exact (h.register t).2
  | typeName t => exact (h.register t).2
  | addInheritance d b a v => exact h.addInheritance d b a v
  | nameOf id => exact (h.nameOf id).2

/-- **Behind every sequence of calls** every row has its record, and nothing else has changed
(`Stocked.Kept`). -/
theorem kept_after (h : f.Kept) (calls : List Call) :
    (f.after calls).registry = f.registry.after calls ∧ (f.after calls).Kept := by
  induction calls generalizing f with
  | nil => exact ⟨rfl, h⟩
  | cons c cs ih =>
    obtain ⟨hregistry, hk⟩ := h.run c
    obtain ⟨hregistry', hk'⟩ := ih hk
    exact ⟨hregistry'.trans (congrArg (Registry.after · cs) hregistry), hk'⟩

end Stocked

end Registry

end TypeLedger
