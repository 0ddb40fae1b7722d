import TypeLedger.Json.Read
import TypeLedger.Table

/-!
# Tables as JSON

* A structure is written as an object; a list without items and a text that is absent are left out,
  but for the two lists of a table. It is read from an object, in which other fields are passed over
  and none of its own may be repeated, or from an array of its fields in their order, of which those
  at the end may be left out if they have a default.
* `Table.read?` and `Table.write` go between a table and its text.
-/

namespace TypeLedger

namespace Json

/-! ## 1. Reading structures -/

def asString? : Json → Option String
  | .text t => t
  | _ => none

/-- A text that may be absent. -/
def asOptional? : Json → Option (Option String)
  | .null => some none
  | j => j.asString?.map some

def asList? {α : Type} (f : Json → Option α) : Json → Option (List α)
  | .array js => js.mapM f
  | _ => none

/-- The fields called `names`, each at most once, of the fields of an object. -/
def ownFields? (names : List String) : List (Text × Json) → Option (List (String × Json))
  | [] => some []
  | (none, _) :: _ => none
  | (some k, j) :: rest => do
    let own ← ownFields? names rest
    if k ∈ names then
      if Keyed.has k own then none else some ((k, j) :: own)
    else some own

/-- The fields of a structure with fields called `names`. -/
def structure? (names : List String) : Json → Option (List (String × Json))
  | .object fields => ownFields? names fields
  | .array js => if js.length ≤ names.length then some (names.zip js) else none
  | _ => none

/-- A field that has to be there. -/
def required? {α : Type} (fields : List (String × Json)) (name : String) (f : Json → Option α) :
    Option α :=
  (fields.lookup name).bind f

/-- A field that has a default. -/
def defaulted? {α : Type} (fields : List (String × Json)) (name : String) (d : α)
    (f : Json → Option α) : Option α :=
  match fields.lookup name with
  | some j => f j
  | none => some d

/-- The pairs of an object whose values are texts. -/
def pairs? : List (Text × Json) → Option (List (String × String))
  | [] => some []
  | (k, j) :: rest => do
    let k ← k
    let v ← j.asString?
    let rest ← pairs? rest
    return (k, v) :: rest

end Json

/-! ## 2. Reading tables -/

def TypeId.ofJson? (j : Json) : Option TypeId := j.asString?.map TypeId.mk

def Param.ofJson? (j : Json) : Option Param := do
  let fields ← j.structure? ["type", "name"]
  let type ← Json.required? fields "type" TypeId.ofJson?
  let name ← Json.defaulted? fields "name" none Json.asOptional?
  return { type, name }

def Symbol.ofJson? (j : Json) : Option Symbol := do
  let fields ← j.structure? ["name", "type", "access", "bit_field"]
  let name ← Json.defaulted? fields "name" none Json.asOptional?
  let type ← Json.required? fields "type" TypeId.ofJson?
  let access ← Json.defaulted? fields "access" none Json.asOptional?
  let bitField ← Json.defaulted? fields "bit_field" none Json.asOptional?
  return { name, type, access, bitField }

def BaseEntry.ofJson? (j : Json) : Option BaseEntry := do
  let fields ← j.structure? ["access", "type", "is_virtual"]
  let access ← Json.required? fields "access" Json.asString?
  let type ← Json.required? fields "type" TypeId.ofJson?
  let isVirtual ← Json.defaulted? fields "is_virtual" none Json.asOptional?
  return { access, type, isVirtual }

def Attributes.ofJson? : Json → Option Attributes
  | .object fields => (Json.pairs? fields).map Attributes.ofList
  | _ => none

def Entry.ofJson? (j : Json) : Option Entry := do
  let fields ← j.structure? ["kind", "type", "attrs", "params", "symbols", "bases"]
  let kind ← Json.required? fields "kind" Json.asString?
  let type ← Json.required? fields "type" TypeId.ofJson?
  let attributes ← Json.defaulted? fields "attrs" .empty Attributes.ofJson?
  let params ← Json.defaulted? fields "params" [] (Json.asList? Param.ofJson?)
  let symbols ← Json.defaulted? fields "symbols" [] (Json.asList? Symbol.ofJson?)
  let bases ← Json.defaulted? fields "bases" [] (Json.asList? BaseEntry.ofJson?)
  return { kind, type, attributes, params, symbols, bases }

def Table.ofJson? (j : Json) : Option Table := do
  let fields ← j.structure? ["typeTable", "globalSymbols"]
  let types ← Json.defaulted? fields "typeTable" [] (Json.asList? Entry.ofJson?)
  let globals ← Json.defaulted? fields "globalSymbols" [] (Json.asList? Symbol.ofJson?)
  return { types, globals }

/-- Reads a table from its text. -/
def Table.read? (text : String) : Option Table := (Json.parse? text).bind Table.ofJson?

/-! ## 3. Writing tables -/

namespace Json

/-- A field with a text. -/
def textField (name value : String) : List (Text × Json) := [(some name, .ofString value)]

/-- A field with a text, left out if there is none. -/
def optionalField (name : String) : Option String → List (Text × Json)
  | some value => textField name value
  | none => []

/-- A field with a list, left out if it has no items. -/
def listField (name : String) (items : List Json) : List (Text × Json) :=
  if items.isEmpty then [] else [(some name, .array items)]

end Json

open Json

def Param.toJson (p : Param) : Json :=
  .object (textField "type" p.type.text ++ optionalField "name" p.name)

def Symbol.toJson (s : Symbol) : Json :=
  .object (optionalField "name" s.name ++ textField "type" s.type.text
    ++ optionalField "access" s.access ++ optionalField "bit_field" s.bitField)

def BaseEntry.toJson (b : BaseEntry) : Json :=
  .object (textField "access" b.access ++ textField "type" b.type.text
    ++ optionalField "is_virtual" b.isVirtual)

def Attributes.toJson (a : Attributes) : Json :=
  .object (a.pairs.map fun p => (some p.1, .ofString p.2))

def Entry.toJson (e : Entry) : Json :=
  .object (textField "kind" e.kind ++ textField "type" e.type.text
    ++ (if e.attributes.pairs.isEmpty then [] else [(some "attrs", e.attributes.toJson)])
    ++ listField "params" (e.params.map Param.toJson)
    ++ listField "symbols" (e.symbols.map Symbol.toJson)
    ++ listField "bases" (e.bases.map BaseEntry.toJson))

def Table.toJson (t : Table) : Json :=
  .object [(some "typeTable", .array (t.types.map Entry.toJson)),
    (some "globalSymbols", .array (t.globals.map Symbol.toJson))]

/-- The text of a table. -/
def Table.write (t : Table) : String := t.toJson.pretty

end TypeLedger
