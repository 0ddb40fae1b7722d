import TypeLedger.Modifier
import TypeLedger.Namer
import TypeLedger.TypeId

/-!
# Type records

* A `TypeRecord` is what a table says about one type. It refers to other types by their
  identifiers only, so a record of a struct may lead back to itself.
* `TypeRecord.refs` are the identifiers that a record refers to directly.
-/

namespace TypeLedger

/-- A base class of a class. -/
structure BaseEdge where
  access : Access
  base : TypeId
  isVirtual : Bool
deriving DecidableEq, Repr

/-- A member of a struct, union or class. -/
structure Member where
  name : Option String
  type : TypeId
  access : Option Access
  bitWidth : Option UInt32
deriving DecidableEq, Repr

/-- A parameter of a function. -/
structure Param where
  type : TypeId
  name : Option String
deriving DecidableEq, Repr

/-- What a record says apart from the qualifiers. -/
inductive TypeBody
  /-- A fundamental type. -/
  | reserved (spelling : String)
  /-- Another type, with the record's qualifiers added. -/
  | qualified (base : TypeId)
  | pointer (kind : PointerKind) (pointee : TypeId)
  | function (result : TypeId) (params : List Param) (variadic : Bool)
  | array (size : ArraySize) (element : TypeId)
  /-- A struct, union or class. Only a class has bases. -/
  | aggregate (key : RecordKey) (tag : Tag) (complete : Bool) (members : List Member)
      (bases : List BaseEdge)
  | enumeration (tag : Tag)
  /-- A type that is known by some words only. -/
  | other (words : String)
deriving DecidableEq, Repr

/-- What a table says about one type. -/
structure TypeRecord where
  id : TypeId
  quals : Qualifiers
  body : TypeBody
deriving DecidableEq, Repr

namespace TypeBody

/-- The tag of a struct, union, class or enumeration. -/
def tag? : TypeBody → Option Tag
  | aggregate _ tag _ _ _ | enumeration tag => some tag
  | _ => none

/-- A struct, union or class whose definition is known. -/
def isDefined : TypeBody → Bool
  | aggregate _ _ complete _ _ => complete
  | _ => false

/-- The identifiers that stand directly in it. -/
def refs : TypeBody → List TypeId
  | reserved _ | enumeration _ | other _ => []
  | qualified t | pointer _ t | array _ t => [t]
  | function r ps _ => r :: ps.map Param.type
  | aggregate _ _ _ ms bs => ms.map Member.type ++ bs.map BaseEdge.base

end TypeBody

/-- The identifiers that a record refers to directly. -/
def TypeRecord.refs (r : TypeRecord) : List TypeId := r.body.refs

/-- The edges from classes to their bases, in the order in which they were stated. -/
structure Inheritance where
  edges : List (TypeId × List BaseEdge) := []
deriving Repr, Inhabited

namespace Inheritance

/-- The bases of a class. -/
def bases (h : Inheritance) (derived : TypeId) : List BaseEdge :=
  (h.edges.lookup derived).getD []

/-- States one more base of a class. -/
def add (h : Inheritance) (derived : TypeId) (edge : BaseEdge) : Inheritance :=
  ⟨Keyed.set derived (h.bases derived ++ [edge]) h.edges⟩

/-- States all bases of a class anew. -/
def replace (h : Inheritance) (derived : TypeId) (edges : List BaseEdge) : Inheritance :=
  ⟨Keyed.set derived edges h.edges⟩

@[simp] theorem bases_add_self (h : Inheritance) (d : TypeId) (e : BaseEdge) :
    (h.add d e).bases d = h.bases d ++ [e] := by
  simp [add, bases]

theorem bases_add_of_ne (h : Inheritance) {d d' : TypeId} (hd : d' ≠ d) (e : BaseEdge) :
    (h.add d e).bases d' = h.bases d' := by
  simp [add, bases, Keyed.lookup_set_of_ne hd]

@[simp] theorem bases_replace_self (h : Inheritance) (d : TypeId) (es : List BaseEdge) :
    (h.replace d es).bases d = es := by
  simp [replace, bases]

theorem bases_replace_of_ne (h : Inheritance) {d d' : TypeId} (hd : d' ≠ d)
    (es : List BaseEdge) : (h.replace d es).bases d' = h.bases d' := by
  simp [replace, bases, Keyed.lookup_set_of_ne hd]

end Inheritance

end TypeLedger
