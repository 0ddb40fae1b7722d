import TypeLedger.CType

/-!
# The records and enumerations of a source

* A `Context` numbers the records and enumerations of a source in the order in which they first
  occur. A record is incomplete until its members are known.
* `describe` words a type for reports.
* `classify` is what the outermost node of a type says about it, with the record's declaration
  looked up.
-/

namespace TypeLedger

/-! ## 1. Declarations -/

/-- A member of a record. -/
structure MemberDecl where
  name : Option String
  type : CType
  access : Option Access
  bitWidth : Option UInt32
deriving DecidableEq, Repr

/-- A base class. -/
structure BaseDecl where
  type : CType
  access : Access
  isVirtual : Bool
deriving DecidableEq, Repr

/-- A record; its members are `none` until its body has been read. -/
structure RecordDecl where
  key : RecordKey
  name : Option String
  members : Option (List MemberDecl)
  bases : List BaseDecl
deriving DecidableEq, Repr

/-- The body of the record has been read. -/
def RecordDecl.isComplete (r : RecordDecl) : Bool := r.members.isSome

/-- The types of the members and bases of a record. -/
def RecordDecl.types (d : RecordDecl) : List CType :=
  (d.members.getD []).map MemberDecl.type ++ d.bases.map BaseDecl.type

/-- An enumeration; its values play no part. -/
structure EnumDecl where
  name : Option String
deriving DecidableEq, Repr

/-- The records and enumerations of a source, in the order of their numbers. -/
structure Context where
  records : List RecordDecl := []
  enums : List EnumDecl := []
deriving DecidableEq, Repr, Inhabited

/-- The position of the last element that satisfies `p`. -/
def lastPosition? {α : Type} (p : α → Bool) : List α → Option Nat
  | [] => none
  | a :: as =>
    match lastPosition? p as with
    | some i => some (i + 1)
    | none => if p a then some 0 else none

namespace Context

/-! ## 2. Records -/

def record? (ctx : Context) (id : RecordId) : Option RecordDecl := ctx.records[id.index]?

/-- Numbers a new record, which is incomplete. -/
def declareRecord (ctx : Context) (key : RecordKey) (name : Option String) :
    RecordId × Context :=
  (⟨ctx.records.length⟩, { ctx with records := ctx.records ++ [⟨key, name, none, []⟩] })

/-- Gives a record its members and bases; a number that no record has changes nothing. -/
def completeRecord (ctx : Context) (id : RecordId) (members : List MemberDecl)
    (bases : List BaseDecl) : Context :=
  { ctx with
    records := ctx.records.modify id.index fun r => { r with members := some members, bases } }

/-- The last record declared under a name. -/
def findRecord? (ctx : Context) (name : String) : Option RecordId :=
  (lastPosition? (fun r => r.name = some name) ctx.records).map RecordId.mk

/-! ## 3. Enumerations -/

def enum? (ctx : Context) (id : EnumId) : Option EnumDecl := ctx.enums[id.index]?

/-- Numbers a new enumeration. -/
def declareEnum (ctx : Context) (name : Option String) : EnumId × Context :=
  (⟨ctx.enums.length⟩, { ctx with enums := ctx.enums ++ [⟨name⟩] })

/-- The last enumeration declared under a name. -/
def findEnum? (ctx : Context) (name : String) : Option EnumId :=
  (lastPosition? (fun e => e.name = some name) ctx.enums).map EnumId.mk

/-! ## 4. Descriptions -/

/-- The words for a record. -/
def recordLabel (ctx : Context) (id : RecordId) : String :=
  match ctx.record? id with
  | some r => r.key.word ++ " " ++ r.name.getD "<anonymous>"
  | none => "<unknown record>"

/-- The words for an enumeration; one that is not declared counts as one without a name. -/
def enumLabel (ctx : Context) (id : EnumId) : String :=
  "enum " ++ ((ctx.enum? id).bind EnumDecl.name).getD "<anonymous>"

mutual

/-- The words for a type. -/
def describe (ctx : Context) (t : CType) : String :=
  let body : String :=
    match t with
    | .null _ => "<null>"
    | .builtin _ s => s
    | .pointer _ k t => k.phrase ++ " " ++ ctx.describe t
    | .array _ (.fixed n) t => "array[" ++ toString n ++ "] of " ++ ctx.describe t
    | .array _ .unknown t => "array[] of " ++ ctx.describe t
    | .function _ r ps v =>
      "function(" ++ ", ".intercalate (ctx.describeAll ps ++ (if v then ["..."] else []))
        ++ ") returning " ++ ctx.describe r
    | .record _ id => ctx.recordLabel id
    | .enumeration _ id => ctx.enumLabel id
    | .synonym _ name _ => name
    | .complex _ t => "_Complex " ++ ctx.describe t
    | .vector _ n t => "vector[" ++ toString n ++ "] of " ++ ctx.describe t
    | .dependent _ s => s
  if t.quals.isEmpty then body else t.quals.spelling ++ " " ++ body

/-- The words for each of some types. -/
def describeAll (ctx : Context) : List CType → List String
  | [] => []
  | t :: ts => ctx.describe t :: ctx.describeAll ts

end

end Context

/-! ## 5. Classification -/

/-- What the outermost node of a type says. -/
inductive Shape
  | builtin (spelling : String)
  | pointer (kind : PointerKind) (pointee : CType)
  | array (size : ArraySize) (element : CType)
  | function (result : CType) (params : List CType) (variadic : Bool)
  | record (decl : RecordDecl)
  | enumeration (name : Option String)
  /-- A type that tables do not spell out: only its sort and its words are kept. -/
  | other (tag description : String)

namespace Context

/-- What the outermost node of a type says, in this context. -/
def classify (ctx : Context) (t : CType) : Shape :=
  match t with
  | .builtin _ s => .builtin s
  | .pointer _ k t => .pointer k t
  | .array _ n t => .array n t
  | .function _ r ps v => .function r ps v
  | .record _ id =>
    match ctx.record? id with
    | some r => .record r
    | none => .other "unknownRecordType" (ctx.recordLabel id)
  | .enumeration _ id => .enumeration ((ctx.enum? id).bind EnumDecl.name)
  | .synonym .. => .other "typedefType" (ctx.describe t)
  | .complex .. => .other "complexType" (ctx.describe t)
  | .vector .. => .other "vectorType" (ctx.describe t)
  | .null .. | .dependent .. => .other "otherType" (ctx.describe t)

end Context

end TypeLedger
