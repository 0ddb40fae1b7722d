import TypeLedger.Source.Cursor
import TypeLedger.Source.Grammar

/-!
# Declarations

* `externalDeclaration` reads specifiers and the declarators that share them, or the head and the
  body of a function; `declarations` reads a whole text of them.
* `parseSource` reads a text from its bytes: the declarations in their order, and the scope that
  they leave.
-/

namespace TypeLedger

/-- A declared name and its type. Without a declarator, as in `struct S;`, the name is missing. A
typedef has the type that its name stands for. -/
structure Declaration where
  name : Option String
  type : CType
  storage : Option StorageClass
  location : Location
deriving DecidableEq, Repr

def Declaration.isTypeSynonym (d : Declaration) : Bool := d.storage == some .typeSynonym

variable [Counting]

/-- Takes declarators that share their specifiers, with commas between, and the semicolon behind
them. The body of a function takes the place of the semicolon. -/
def declaratorList (stop : Location) (base : CType) (storage : Option StorageClass) (sc : Scope)
    (ts : List Token) : Except SourceError (Takes ts (List Declaration × Scope)) := do
  let ⟨(d, sc₁), r₁, h₁⟩ ← declarator stop sc ts
  match d.name with
  | none => .error (faultAt (place stop ts) .nameless)
  | some name =>
    let type := d.apply base
    let sc₂ :=
      if storage = some .typeSynonym then sc₁.nameType name (.synonym .none name type) else sc₁
    let own : Declaration := ⟨some name, type, storage, place stop ts⟩
    if type.isFunction && startsWith .braceOpen r₁ then
      let ⟨_, r₂, h₂⟩ ← skipBody stop r₁
      return ⟨([own], sc₂), r₂, by omega⟩
    else
      let ⟨_, r₂, h₂⟩ ← skipInitializer stop r₁
      match take? .comma r₂ with
      | some ⟨_, r₃, h₃⟩ =>
        let ⟨(list, sc₃), r₄, h₄⟩ ← declaratorList stop base storage sc₂ r₃
        return ⟨(own :: list, sc₃), r₄, by omega⟩
      | none =>
        let ⟨_, r₃, h₃⟩ ← expect stop .semicolon r₂
        return ⟨([own], sc₂), r₃, length_lt_of_reads_takes h₁ h₂ h₃⟩
termination_by ts.length

/-- Takes an external declaration. A semicolon by itself declares nothing. -/
def externalDeclaration (stop : Location) (sc : Scope) (ts : List Token) :
    Except SourceError (Takes ts (List Declaration × Scope)) :=
  match take? .semicolon ts with
  | some ⟨_, r, h⟩ => return ⟨([], sc), r, h⟩
  | none => do
    let ⟨(specs, sc₁), r₁, h₁⟩ ← specifiers stop {} sc ts
    let base ← specs.resolve (place stop ts)
    match take? .semicolon r₁ with
    | some ⟨_, r₂, h₂⟩ =>
      return ⟨([⟨none, base, specs.storage, place stop ts⟩], sc₁), r₂, by omega⟩
    | none =>
      let ⟨v, r₂, h₂⟩ ← declaratorList stop base specs.storage sc₁ r₁
      return ⟨v, r₂, by omega⟩

/-- Reads declarations to the end of the tokens. -/
def declarations (stop : Location) (sc : Scope) (ts : List Token) :
    Except SourceError (List Declaration × Scope) :=
  if ts.isEmpty then .ok ([], sc)
  else do
    let ⟨(own, sc₁), r, _⟩ ← externalDeclaration stop sc ts
    let (list, sc₂) ← declarations stop sc₁ r
    return (own ++ list, sc₂)
termination_by ts.length

/-- Reads a source text, with the records and enumerations of `ctx` already declared. -/
def parseBytes (bytes : List UInt8) (ctx : Context := {}) :
    Except SourceError (List Declaration × Scope) := do
  let (ts, stop) ← tokenize bytes
  declarations stop { context := ctx } ts

/-- Reads a source text, with the records and enumerations of `ctx` already declared. -/
def parseSource (source : String) (ctx : Context := {}) :
    Except SourceError (List Declaration × Scope) :=
  parseBytes source.toUTF8.toList ctx

end TypeLedger
