import TypeLedger.Text.Numeral
import TypeLedger.Text.Quoted
import TypeLedger.TypeRecord

/-!
# Type tables

* A `Table` lists the types of a source and its global symbols. All it says, it says in words:
  flags, numbers and accesses are texts, which `Entry` and the symbols read on demand.
* `Attributes` are pairs of texts, kept in the order of their names.
* A `TableFault` is a text that does not say what its place asks for.
-/

namespace TypeLedger

/-! ## 1. Faults -/

/-- Why an entry of a table has no meaning. -/
inductive TableFault
  | invalidFlag (name value : String)
  | invalidAccess (word : String)
  | invalidArraySize (text : String)
  | invalidBitWidth (text : String)
deriving DecidableEq, Repr

def TableFault.message : TableFault → String
  | .invalidFlag a v => "invalid boolean value for '" ++ a ++ "': " ++ Text.quoteString v
  | .invalidAccess w => "invalid access specifier: " ++ Text.quoteString w
  | .invalidArraySize s => "invalid array size: " ++ Text.quoteString s
  | .invalidBitWidth s => "invalid bit field width: " ++ Text.quoteString s

/-- The access that a word names, or the fault that it names none. -/
def Access.ofWord (word : String) : Except TableFault Access :=
  match Access.ofWord? word with
  | some a => .ok a
  | none => .error (.invalidAccess word)

/-- Reads the value of a flag. -/
def readFlag (name value : String) : Except TableFault Bool :=
  if value = "1" ∨ value = "true" then .ok true
  else if value = "0" ∨ value = "false" then .ok false
  else .error (.invalidFlag name value)

/-! ## 2. Attributes -/

namespace Attributes

/-- Gives the attribute `k` the value `v` in an ordered list. -/
def place (k v : String) : List (String × String) → List (String × String)
  | [] => [(k, v)]
  | (k', v') :: rest =>
    if k < k' then (k, v) :: (k', v') :: rest
    else if k = k' then (k, v) :: rest
    else (k', v') :: place k v rest

theorem mem_place {k v : String} {l : List (String × String)} {p : String × String}
    (h : p ∈ place k v l) : p.1 = k ∨ p ∈ l := by
  induction l with
  | nil => simp [place] at h; simp [h]
  | cons q l ih =>
    unfold place at h
    split at h
    · rcases List.mem_cons.1 h with rfl | h
      · exact .inl rfl
      · exact .inr h
    · split at h
      · rcases List.mem_cons.1 h with rfl | h
        · exact .inl rfl
        · exact .inr (List.mem_cons_of_mem _ h)
      · rcases List.mem_cons.1 h with rfl | h
        · exact .inr List.mem_cons_self
        · exact (ih h).imp_right (List.mem_cons_of_mem _)

/-- The names in ascending order, each once. -/
def Sorted (l : List (String × String)) : Prop := l.Pairwise fun p q => p.1 < q.1

theorem sorted_place {k v : String} {l : List (String × String)} (h : Sorted l) :
    Sorted (place k v l) := by
  induction l with
  | nil => simp [place, Sorted]
  | cons p l ih =>
    obtain ⟨hp, hl⟩ := List.pairwise_cons.1 h
    unfold place
    split
    · rename_i hk
      refine List.pairwise_cons.2 ⟨fun q hq => ?_, h⟩
      rcases List.mem_cons.1 hq with rfl | hq
      · exact hk
      · exact String.lt_trans hk (hp q hq)
    · rename_i hk
      split
      · rename_i he
        exact List.pairwise_cons.2 ⟨fun q hq => he ▸ hp q hq, hl⟩
      · rename_i he
        refine List.pairwise_cons.2 ⟨fun q hq => ?_, ih hl⟩
        rcases mem_place hq with hq | hq
        · have hle := String.not_lt.1 hk
          rw [hq]
          exact Decidable.byContradiction fun hn =>
            he (String.le_antisymm (String.not_lt.1 hn) hle)
        · exact hp q hq

end Attributes

/-- Named texts, in ascending order of their names. -/
structure Attributes where
  pairs : List (String × String)
  sorted : Attributes.Sorted pairs
deriving DecidableEq, Repr

namespace Attributes

/-- No attributes. -/
def empty : Attributes := ⟨[], List.Pairwise.nil⟩

instance : Inhabited Attributes := ⟨empty⟩

theorem ext_pairs {a b : Attributes} (h : a.pairs = b.pairs) : a = b := by
  cases a
  cases b
  congr

def get? (a : Attributes) (name : String) : Option String := a.pairs.lookup name

/-- Gives an attribute its value. -/
def set (a : Attributes) (name value : String) : Attributes :=
  ⟨place name value a.pairs, sorted_place a.sorted⟩

/-- The attributes that a list of pairs states; the last of a name counts. -/
def ofList (l : List (String × String)) : Attributes :=
  l.foldl (fun a p => a.set p.1 p.2) empty

/-- Gives a flag the value one if it is on. -/
def mark (a : Attributes) (name : String) (on : Bool) : Attributes :=
  if on then a.set name "1" else a

/-- Gives an attribute its value if there is one. -/
def setSome (a : Attributes) (name : String) : Option String → Attributes
  | some value => a.set name value
  | none => a

end Attributes

/-! ## 3. Entries -/

/-- A member of an aggregate or a global symbol. -/
structure Symbol where
  name : Option String := none
  type : TypeId
  access : Option String := none
  bitField : Option String := none
deriving DecidableEq, Repr

/-- A base class of an entry. -/
structure BaseEntry where
  access : String
  type : TypeId
  isVirtual : Option String := none
deriving DecidableEq, Repr

/-- One type of a table. -/
structure Entry where
  kind : String
  type : TypeId
  attributes : Attributes := .empty
  params : List Param := []
  symbols : List Symbol := []
  bases : List BaseEntry := []
deriving DecidableEq, Repr

/-- The types and the global symbols of a source. -/
structure Table where
  types : List Entry := []
  globals : List Symbol := []
deriving DecidableEq, Repr, Inhabited

/-- The last entry of a table for an identifier. -/
def Table.entry? (t : Table) (id : TypeId) : Option Entry :=
  t.types.reverse.find? fun e => e.type == id

/-- The access of a symbol. -/
def Symbol.readAccess (s : Symbol) : Except TableFault (Option Access) :=
  match s.access with
  | none => .ok none
  | some word => (Access.ofWord word).map some

/-- The width of a symbol that is a bit field. -/
def Symbol.readBitWidth (s : Symbol) : Except TableFault (Option UInt32) :=
  match s.bitField with
  | none => .ok none
  | some text =>
    match Text.word32? text with
    | some n => .ok (some n)
    | none => .error (.invalidBitWidth text)

/-- The base class that an entry states. -/
def BaseEntry.readEdge (b : BaseEntry) : Except TableFault BaseEdge := do
  let access ← Access.ofWord b.access
  let isVirtual ←
    match b.isVirtual with
    | some v => readFlag "is_virtual" v
    | none => .ok false
  return ⟨access, b.type, isVirtual⟩

/-- The entry that states a base class. -/
def BaseEntry.ofEdge (e : BaseEdge) : BaseEntry :=
  ⟨e.access.word, e.base, if e.isVirtual then some "1" else none⟩

/-- A base class is read back as it was stated. -/
theorem BaseEntry.readEdge_ofEdge (e : BaseEdge) : (BaseEntry.ofEdge e).readEdge = .ok e := by
  rcases e with ⟨_ | _ | _, b, _ | _⟩ <;> rfl

namespace Entry

/-- The type that an attribute refers to. -/
def typeRef (e : Entry) (name : String) : TypeId :=
  match e.attributes.get? name with
  | some text => ⟨text⟩
  | none => .null

/-- A flag; one that is not stated is off. -/
def flag (e : Entry) (name : String) : Except TableFault Bool :=
  match e.attributes.get? name with
  | some value => readFlag name value
  | none => .ok false

def readQualifiers (e : Entry) : Except TableFault Qualifiers := do
  let isConst ← e.flag "is_const"
  let isVolatile ← e.flag "is_volatile"
  let isRestrict ← e.flag "is_restrict"
  return { isConst, isVolatile, isRestrict }

def readArraySize (e : Entry) : Except TableFault ArraySize :=
  match e.attributes.get? "array_size" with
  | none => .ok .unknown
  | some text =>
    if text = "*" then .ok .unknown
    else
      match Text.word64? text with
      | some n => .ok (.fixed n)
      | none => .error (.invalidArraySize text)

end Entry

/-- Gives the flags of the qualifiers that are present. -/
def Attributes.markQualifiers (a : Attributes) (q : Qualifiers) : Attributes :=
  ((a.mark "is_const" q.isConst).mark "is_volatile" q.isVolatile).mark "is_restrict" q.isRestrict

/-! ## 4. Kinds of entries -/

namespace EntryKind

def basic : String := "basicType"
def pointer : String := "pointerType"
def function : String := "functionType"
def array : String := "arrayType"
def enumeration : String := "enumType"
def other : String := "otherType"

/-- The kind of a record's entry. -/
def ofKey : RecordKey → String
  | .structKey => "structType"
  | .unionKey => "unionType"
  | .classKey => "classType"

/-- The record that a kind of entry is for. -/
def key? : String → Option RecordKey
  | "structType" => some .structKey
  | "unionType" => some .unionKey
  | "classType" => some .classKey
  | _ => none

theorem key?_ofKey (k : RecordKey) : key? (ofKey k) = some k := by
  cases k <;> rfl

end EntryKind

end TypeLedger
