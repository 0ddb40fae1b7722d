/-!
# The small words of a declaration

* `Qualifiers`: `const`, `volatile` and `restrict`, each present or absent.
* `Access`: who may use a member or a base class.
* `PointerKind`: the five ways of pointing, with the sigil a declarator writes and the attribute
  a table entry carries.
* `ArraySize`, `RecordKey`, `StorageClass`.
-/

namespace TypeLedger

/-! ## 1. Qualifiers -/

/-- The qualifiers of a type; each is present or absent. -/
structure Qualifiers where
  isConst : Bool := false
  isVolatile : Bool := false
  isRestrict : Bool := false
deriving DecidableEq, Repr, Inhabited

namespace Qualifiers

/-- No qualifier. -/
def none : Qualifiers := {}

/-- A qualifier is in the union when it is in one of the two sets. -/
def union (p q : Qualifiers) : Qualifiers :=
  ⟨p.isConst || q.isConst, p.isVolatile || q.isVolatile, p.isRestrict || q.isRestrict⟩

def isEmpty (q : Qualifiers) : Bool :=
  !q.isConst && !q.isVolatile && !q.isRestrict

/-- The words of the qualifiers that are present, always in this order. -/
def words (q : Qualifiers) : List String :=
  (if q.isConst then ["const"] else [])
    ++ (if q.isVolatile then ["volatile"] else [])
    ++ (if q.isRestrict then ["restrict"] else [])

/-- The words of the qualifiers that are present, with single spaces between. -/
def spelling (q : Qualifiers) : String :=
  " ".intercalate q.words

@[simp] theorem union_none (q : Qualifiers) : q.union none = q := by
  cases q; simp [union, none]

@[simp] theorem none_union (q : Qualifiers) : none.union q = q := by
  cases q; simp [union, none]

theorem union_assoc (p q r : Qualifiers) : (p.union q).union r = p.union (q.union r) := by
  simp [union, Bool.or_assoc]

theorem isEmpty_iff (q : Qualifiers) : q.isEmpty = true ↔ q = none := by
  rcases q with ⟨_ | _, _ | _, _ | _⟩ <;> simp [isEmpty, none]

end Qualifiers

/-- One qualifier word. -/
inductive Qualifier
  | constant
  | volatile
  | restrict
deriving DecidableEq, Repr

/-- The set that holds the one qualifier. -/
def Qualifier.alone : Qualifier → Qualifiers
  | .constant => { isConst := true }
  | .volatile => { isVolatile := true }
  | .restrict => { isRestrict := true }

/-! ## 2. Access -/

/-- Who may use a member or a base class. -/
inductive Access
  | pub
  | priv
  | prot
deriving DecidableEq, Repr

namespace Access

def word : Access → String
  | .pub => "public"
  | .priv => "private"
  | .prot => "protected"

/-- The access that a word names. -/
def ofWord? : String → Option Access
  | "public" => some .pub
  | "private" => some .priv
  | "protected" => some .prot
  | _ => none

theorem ofWord?_word (a : Access) : ofWord? a.word = some a := by
  cases a <;> rfl

end Access

/-! ## 3. Pointers, arrays, records, storage -/

/-- The ways of pointing at something. -/
inductive PointerKind
  | pointer
  | lvalueReference
  | rvalueReference
  | block
  | member
deriving DecidableEq, Repr, Inhabited

namespace PointerKind

/-- What a declarator writes in front of the name. -/
def sigil : PointerKind → String
  | .pointer | .member => "*"
  | .lvalueReference => "&"
  | .rvalueReference => "&&"
  | .block => "^"

/-- The value of a table entry's attribute; a plain pointer carries none. -/
def attrText : PointerKind → Option String
  | .pointer => none
  | .lvalueReference => some "lvalue_reference"
  | .rvalueReference => some "rvalue_reference"
  | .block => some "block"
  | .member => some "member"

/-- The kind that an attribute names; every other value, and none, is a plain pointer. -/
def ofAttrText : Option String → PointerKind
  | some "lvalue_reference" => .lvalueReference
  | some "rvalue_reference" => .rvalueReference
  | some "block" => .block
  | some "member" => .member
  | _ => .pointer

theorem ofAttrText_attrText (k : PointerKind) : ofAttrText k.attrText = k := by
  cases k <;> rfl

/-- The words a description of a type starts with. -/
def phrase : PointerKind → String
  | .pointer => "pointer to"
  | .lvalueReference => "reference to"
  | .rvalueReference => "rvalue reference to"
  | .block => "block pointer to"
  | .member => "member pointer to"

end PointerKind

/-- The number of elements of an array, where it is known. -/
inductive ArraySize
  | fixed (count : UInt64)
  | unknown
deriving DecidableEq, Repr, Inhabited

/-- The keyword a record is declared with. -/
inductive RecordKey
  | structKey
  | unionKey
  | classKey
deriving DecidableEq, Repr, Inhabited

def RecordKey.word : RecordKey → String
  | .structKey => "struct"
  | .unionKey => "union"
  | .classKey => "class"

/-- The storage class of a declaration. -/
inductive StorageClass
  | typeSynonym
  | external
  | static
  | auto
  | register
deriving DecidableEq, Repr

/-- The name of a storage class as a report shows it. -/
def StorageClass.label : StorageClass → String
  | .typeSynonym => "Typedef"
  | .external => "Extern"
  | .static => "Static"
  | .auto => "Auto"
  | .register => "Register"

end TypeLedger
