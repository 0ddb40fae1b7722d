import TypeLedger.CType.Context
import TypeLedger.Keyed

/-!
# What a declaration can see

* A `Scope` holds the names that stand for types, which are typedef names and class names, and the
  context of records and enumerations.
-/

namespace TypeLedger

/-- The names that stand for types, and the records and enumerations declared so far. -/
structure Scope where
  names : List (String × CType) := []
  context : Context := {}
deriving Inhabited

namespace Scope

/-- The type a name stands for. -/
def typeName? (sc : Scope) (name : String) : Option CType := sc.names.lookup name

/-- Lets a name stand for a type from here on. -/
def nameType (sc : Scope) (name : String) (t : CType) : Scope :=
  { sc with names := Keyed.set name t sc.names }

/-- The record type that a base clause means by a name: a type name whose meaning is a record,
else the record declared under the name. -/
def recordType? (sc : Scope) (name : String) : Option CType :=
  match (sc.typeName? name).map CType.desugar with
  | some (.record _ id) => some (.record .none id)
  | _ => (sc.context.findRecord? name).map (.record .none)

/-- The type is a record without a name. -/
def isAnonymousRecord (sc : Scope) : CType → Bool
  | .record _ id => (sc.context.record? id).any fun r => r.name.isNone
  | _ => false

end Scope

end TypeLedger
