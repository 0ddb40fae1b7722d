import TypeLedger.Keyed

/-!
# Identifiers of types

* A `TypeId` names a type in a table. `TypeId.null` stands for the absence of a type.
* The fundamental types have fixed identifiers, made from their spelling; every other identifier is
  the word of a `Category` and a running number, counted by `Counters`.
-/

namespace TypeLedger

/-- The identifier of a type in a table. -/
structure TypeId where
  text : String
deriving DecidableEq, Repr, Inhabited

namespace TypeId

/-- The identifier that stands for no type. -/
def null : TypeId := ⟨"nullType"⟩

def isNull (id : TypeId) : Bool := id == null

end TypeId

/-! ## 1. Fundamental types -/

namespace Fundamental

/-- The fundamental types: identifier and spelling. -/
def table : List (TypeId × String) :=
  [(⟨"void"⟩, "void"), (⟨"char"⟩, "char"), (⟨"short"⟩, "short"), (⟨"int"⟩, "int"),
   (⟨"long"⟩, "long"), (⟨"unsigned"⟩, "unsigned"), (⟨"float"⟩, "float"), (⟨"double"⟩, "double"),
   (⟨"wchar_t"⟩, "wchar_t"), (⟨"char16_t"⟩, "char16_t"), (⟨"char32_t"⟩, "char32_t"),
   (⟨"bool"⟩, "bool"), (⟨"signed_char"⟩, "signed char"), (⟨"long_long"⟩, "long long"),
   (⟨"unsigned_char"⟩, "unsigned char"), (⟨"unsigned_short"⟩, "unsigned short"),
   (⟨"unsigned_int"⟩, "unsigned int"), (⟨"unsigned_long"⟩, "unsigned long"),
   (⟨"unsigned_long_long"⟩, "unsigned long long"), (⟨"long_double"⟩, "long double"),
   (⟨"__int128"⟩, "__int128"), (⟨"unsigned___int128"⟩, "unsigned __int128")]

def isAsciiAlnum (c : Char) : Bool :=
  ('0' ≤ c && c ≤ '9') || ('a' ≤ c && c ≤ 'z') || ('A' ≤ c && c ≤ 'Z')

/-- The identifier that a spelling makes: all but ASCII letters and digits becomes an underscore. -/
def idOfSpelling (spelling : String) : TypeId :=
  ⟨String.ofList (spelling.toList.map fun c => if isAsciiAlnum c then c else '_')⟩

/-- The identifier is that of a fundamental type. -/
def isFundamental (id : TypeId) : Bool := Keyed.has id table

end Fundamental

/-! ## 2. Numbered identifiers -/

/-- The sorts of types that are numbered apart. -/
inductive Category
  | basic
  | pointer
  | array
  | structType
  | unionType
  | enumType
  | classType
  | function
  | other
deriving DecidableEq, Repr

namespace Category

/-- The categories in the order in which a table lists them. -/
def all : List Category :=
  [.basic, .pointer, .array, .structType, .unionType, .enumType, .classType, .function, .other]

/-- The word that the identifiers of a category begin with. -/
def word : Category → String
  | .basic => "Basic"
  | .pointer => "Pointer"
  | .array => "Array"
  | .structType => "Struct"
  | .unionType => "Union"
  | .enumType => "Enum"
  | .classType => "Class"
  | .function => "Function"
  | .other => "Other"

/-- The identifier with number `n`. -/
def id (c : Category) (n : Nat) : TypeId := ⟨c.word ++ toString n⟩

end Category

/-- How many identifiers of each category have been given out. -/
structure Counters where
  given : List (Category × Nat) := []
deriving Inhabited

namespace Counters

def count (k : Counters) (c : Category) : Nat := (k.given.lookup c).getD 0

/-- The next identifier of a category. -/
def next (k : Counters) (c : Category) : TypeId × Counters :=
  (c.id (k.count c), ⟨Keyed.set c (k.count c + 1) k.given⟩)

theorem count_next_self (k : Counters) (c : Category) : (k.next c).2.count c = k.count c + 1 := by
  simp [next, count]

theorem count_next_of_ne (k : Counters) {c d : Category} (h : d ≠ c) :
    (k.next c).2.count d = k.count d := by
  simp [next, count, Keyed.lookup_set_of_ne h]

end Counters

end TypeLedger
