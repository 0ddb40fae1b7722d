import TypeLedger.Registry.Ledger
import TypeLedger.Renaming
import TypeLedger.Table.Encode

/-!
# Registries

* A `Registry` gives the types of a context their identifiers and says what is known of each. The
  record of a type is read off the ledger: its parts are the identifiers that its components have.
* Bases are those that a class declares and those that `addInheritance` states on top.
* `table` lists the registered types by category, each category in the order of registration.
-/

namespace TypeLedger

/-- The types of a context that have been registered. -/
structure Registry where
  context : Context
  ledger : Ledger := {}
  /-- The bases stated on top of those declared. -/
  added : Inheritance := {}
  renames : Option Renaming := none
  /-- The table has an entry that stands for labels. -/
  hasLabel : Bool := false
  detail : Detail := .quiet

namespace Registry

/-! ## 1. Registration -/

/-- The identifier of a type, which is registered now if it is not yet. -/
def register (t : CType) (r : Registry) : TypeId × Registry :=
  let ledger := r.ledger.register r.context r.detail t
  (ledger.idOf t, { r with ledger })

/-- The identifier that the table shows for another. -/
def shown (r : Registry) (id : TypeId) : TypeId :=
  match r.renames with
  | some m => m.apply id
  | none => id

/-- The identifier that the table shows for a type, which is registered now if it is not yet. -/
def typeName (t : CType) (r : Registry) : TypeId × Registry :=
  let (id, r) := r.register t
  (r.shown id, r)

/-- Registers two types and states the second as a base of the first. -/
def addInheritance (derived base : CType) (access : Access) (isVirtual : Bool) (r : Registry) :
    Registry :=
  let (d, r) := r.register derived
  let (b, r) := r.register base
  { r with added := r.added.add d ⟨access, b, isVirtual⟩ }

/-! ## 2. What is known of a type -/

/-- The identifier of a type that has been registered. -/
def lookup? (r : Registry) (t : CType) : Option TypeId := r.ledger.memo.lookup t

def row? (r : Registry) (id : TypeId) : Option Row := r.ledger.rows.find? fun row => row.id == id

/-- The numbered identifiers in the order in which they were given. -/
def ids (r : Registry) : List TypeId := r.ledger.rows.map Row.id

/-- The number of types that have a record. -/
def size (r : Registry) : Nat := r.ledger.rows.length + r.ledger.fundamentals.length

/-- The bases that the type of a row declares; a qualified class declares none. -/
def declaredIn (r : Registry) (row : Row) : List BaseEdge :=
  if row.type.quals.isEmpty then
    match r.context.classify row.type with
    | .record d => d.bases.map fun b => ⟨b.access, r.ledger.idOf b.type, b.isVirtual⟩
    | _ => []
  else []

/-- The bases that a class declares. -/
def declaredBases (r : Registry) (id : TypeId) : List BaseEdge :=
  (r.row? id).elim [] r.declaredIn

/-- The bases of a class, those it declares first. -/
def bases (r : Registry) (id : TypeId) : List BaseEdge := r.declaredBases id ++ r.added.bases id

/-- The record of a member. -/
def member (r : Registry) (m : MemberDecl) : Member :=
  ⟨m.name, r.ledger.idOf m.type, m.access, m.bitWidth⟩

/-- What is known of the type of a row. -/
def body (r : Registry) (row : Row) : TypeBody :=
  if row.type.quals.isEmpty then
    match r.context.classify row.type with
    | .builtin s => .other s
    | .pointer k t => .pointer k (r.ledger.idOf t)
    | .array n t => .array n (r.ledger.idOf t)
    | .function t ps v => .function (r.ledger.idOf t) (ps.map fun p => ⟨r.ledger.idOf p, none⟩) v
    | .record d =>
      .aggregate d.key (row.tag.getD (.anonymous 0)) d.isComplete
        ((d.members.getD []).map r.member)
        (if d.key = .classKey then r.bases row.id else [])
    | .enumeration _ => .enumeration (row.tag.getD (.anonymous 0))
    | .other _ words => .other words
  else .qualified (r.ledger.idOf row.type.unqualified)

/-- The record of the type of a row. -/
def rowRecord (r : Registry) (row : Row) : TypeRecord := ⟨row.id, row.type.quals, r.body row⟩

/-- The record of a registered type. -/
def record? (r : Registry) (id : TypeId) : Option TypeRecord :=
  match r.row? id with
  | some row => some (r.rowRecord row)
  | none => (r.ledger.fundamentals.lookup id).map fun s => ⟨id, .none, .reserved s⟩

/-- The name of a struct, union, class or enumeration, given to it now if it has none yet. -/
def nameOf (id : TypeId) (r : Registry) : Option String × Registry :=
  match (r.row? id).bind Row.tag with
  | some tag =>
    let (name, naming) := Naming.name tag r.ledger.naming
    (some name, { r with ledger := { r.ledger with naming } })
  | none => (none, r)

/-! ## 3. The table -/

/-- The kind of a row's entry. -/
def kind (r : Registry) (row : Row) : String :=
  if row.type.quals.isEmpty then
    match r.context.classify row.type with
    | .builtin _ => EntryKind.other
    | .pointer .. => EntryKind.pointer
    | .array .. => EntryKind.array
    | .function .. => EntryKind.function
    | .record d => EntryKind.ofKey d.key
    | .enumeration _ => EntryKind.enumeration
    | .other tag _ => tag
  else EntryKind.basic

def entry (r : Registry) (row : Row) : Entry :=
  .ofRecord r.shown r.ledger.naming (r.kind row) (r.bases row.id) (r.rowRecord row)

/-- The entry that stands for labels: a pointer to nothing. -/
def labelEntry (r : Registry) : Entry where
  kind := EntryKind.pointer
  type := r.shown .label
  attributes := Attributes.empty.set "ref" "void"

/-- The entries of a category. The entry for labels follows the pointers. -/
def entriesOf (r : Registry) (c : Category) : List Entry :=
  (r.ledger.rows.filter fun row => row.category == c).map r.entry
    ++ if c = .pointer ∧ r.hasLabel then [r.labelEntry] else []

/-- The registered types as a table, without global symbols. -/
def table (r : Registry) : Table := { types := Category.all.flatMap r.entriesOf }

/-! ## 4. Reports -/

/-- The numbered types in the order of registration, a line each. -/
def dump (r : Registry) : List String :=
  r.ledger.rows.map fun row => row.id.text ++ ": " ++ r.context.describe row.type

/-- How many types have been registered. -/
structure Stats where
  perCategory : List (Category × Nat)
  fundamental : Nat
  memoized : Nat
deriving Repr

def stats (r : Registry) : Stats where
  perCategory := Category.all.map fun c => (c, r.ledger.rows.countP fun row => row.category == c)
  fundamental := r.ledger.fundamentals.length
  memoized := r.ledger.memo.length

/-- The number of entries of the table, the one for labels apart. -/
def Stats.emitted (s : Stats) : Nat := s.perCategory.foldr (fun p n => p.2 + n) 0

def Stats.text (s : Stats) : String :=
  let parts := (s.perCategory.filter fun p => 0 < p.2).map fun p =>
    p.1.word ++ ": " ++ toString p.2
  toString s.emitted ++ " entries ("
    ++ (if parts.isEmpty then "none" else ", ".intercalate parts) ++ "), "
    ++ toString s.fundamental ++ " fundamental, " ++ toString s.memoized ++ " memoized"

end Registry

end TypeLedger
