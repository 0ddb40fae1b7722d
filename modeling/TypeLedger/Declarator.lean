import TypeLedger.CType

/-!
# Declarators

* A declarator wraps a name in pointers, arrays and functions. Its `derivations` list them from the
  name outwards: `*x[2]` has an array, then a pointer.
* The derivation next to the name is the outermost node of the declared type, so `*x[2]` declares
  an array of pointers.
-/

namespace TypeLedger

/-- One step of a declarator. -/
inductive Derivation
  | pointer (kind : PointerKind) (quals : Qualifiers)
  | array (size : ArraySize)
  | function (params : List CType) (variadic : Bool)
deriving DecidableEq, Repr

/-- The type that a derivation makes of another. -/
def Derivation.wrap : Derivation → CType → CType
  | .pointer k q, t => .pointer q k t
  | .array n, t => .array .none n t
  | .function ps v, t => .function .none t ps v

/-- A declarator: the name, which may be missing, and the derivations from the name outwards. -/
structure Declarator where
  name : Option String
  derivations : List Derivation
deriving DecidableEq, Repr

/-- The type that derivations make of a base type. -/
def Derivation.applyAll (base : CType) (derivations : List Derivation) : CType :=
  derivations.foldr Derivation.wrap base

def Declarator.apply (base : CType) (d : Declarator) : CType :=
  Derivation.applyAll base d.derivations

end TypeLedger
