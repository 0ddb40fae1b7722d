import TypeLedger.Environment
import TypeLedger.Fragment

/-!
# Declarations of names

* `declare` writes the declaration of a name with the type of an identifier. It works from the name
  outwards: a pointer puts its sigil in front, an array and a function their suffix behind, and the
  declarator so far is handed on to the type pointed at, the element or the result.
* Qualifiers are gathered until they meet a type that can carry them: they end in front of a
  spelling or a tag, or behind the sigil of a pointer. Those of an array go on to its element, those
  of a function are dropped.
* An identifier without a record, and one that leads back to itself, is written as incomplete.
-/

namespace TypeLedger.Environment

/-- A pointer to the identifier needs parentheses: it is a function or an array, under qualifiers
perhaps. Only so many records are looked at. -/
def bindsTighter (env : Environment) : Nat → TypeId → Bool
  | 0, _ => false
  | n + 1, id =>
    match env.body? id with
    | some (.qualified base) => bindsTighter env n base
    | some (.function ..) | some (.array ..) => true
    | _ => false

/-- How many records are looked at for parentheses. -/
def parenthesisDepth : Nat := 8

/-- The declarator of a pointer around the declarator `name`. -/
def pointerDeclarator (env : Environment) (kind : PointerKind) (quals : Qualifiers)
    (pointee : TypeId) (name : String) : String :=
  let inner :=
    if quals.isEmpty then kind.sigil ++ name
    else Fragment.beside (kind.sigil ++ quals.spelling) name
  if env.bindsTighter parenthesisDepth pointee then "(" ++ inner ++ ")" else inner

/-- The declarator of an array around the declarator `name`. -/
def arrayDeclarator (size : ArraySize) (name : String) : String :=
  match size with
  | .fixed n => name ++ "[" ++ toString n ++ "]"
  | .unknown => name ++ "[]"

/-- The declarator of a function around the declarator `name`. -/
def functionDeclarator (params : List String) (variadic : Bool) (name : String) : String :=
  name ++ "(" ++ Fragment.join ", " (params ++ if variadic then ["..."] else []) ++ ")"

/-- The declaration of a name with a type that has a tag. -/
def taggedDeclaration (quals : Qualifiers) (keyword : String) (tag : Tag) (name : String) :
    StateM Naming String := do
  let aggregate ← Naming.name tag
  return Fragment.ofWords [quals.spelling, keyword, aggregate, name]

/-- The result and the parameters of a function have records. -/
def signatureKnown (env : Environment) (result : TypeId) (params : List Param) : Bool :=
  env.contains result && params.all fun p => env.contains p.type

mutual

/-- The declaration of `name`, the declarator so far, with the type of `id` and the qualifiers
`quals` on top. The identifiers on the way here are `path`. -/
def declareWith (env : Environment) (path : List TypeId) (quals : Qualifiers) (id : TypeId)
    (name : String) : StateM Naming String :=
  match hr : env.lookup? id with
  | none => pure (Fragment.incomplete name)
  | some r =>
    if hp : id ∈ path then pure (Fragment.incomplete name)
    else
      have := unseen_cons_lt hr hp
      let quals := quals.union r.quals
      match r.body with
      | .reserved spelling => pure (Fragment.ofWords [quals.spelling, spelling, name])
      | .qualified base =>
        if env.contains base then declareWith env (id :: path) quals base name
        else pure (Fragment.incomplete name)
      | .pointer kind pointee =>
        if env.contains pointee then
          declareWith env (id :: path) .none pointee (env.pointerDeclarator kind quals pointee name)
        else pure (Fragment.incomplete name)
      | .function result params variadic =>
        if env.signatureKnown result params then do
          let texts ← declareParams env (id :: path) params
          declareWith env (id :: path) .none result (functionDeclarator texts variadic name)
        else pure (Fragment.incomplete name)
      | .array size element =>
        if env.contains element then
          declareWith env (id :: path) quals element (arrayDeclarator size name)
        else pure (Fragment.incomplete name)
      | .aggregate key tag _ _ _ => taggedDeclaration quals key.word tag name
      | .enumeration tag => taggedDeclaration quals "enum" tag name
      | .other _ => pure (Fragment.incomplete name)
termination_by (env.unseen path, 0)

/-- The declarations of parameters. -/
def declareParams (env : Environment) (path : List TypeId) :
    List Param → StateM Naming (List String)
  | [] => pure []
  | p :: ps => do
    let text ← declareWith env path .none p.type (p.name.getD "")
    let texts ← declareParams env path ps
    return text :: texts
termination_by ps => (env.unseen path, ps.length + 1)

end

/-- The declaration of a name with the type of an identifier. -/
def declare (env : Environment) (id : TypeId) (name : String) : StateM Naming String :=
  env.declareWith [] .none id name

/-- The type of an identifier as text: a declaration without a name. -/
def typeText (env : Environment) (id : TypeId) : StateM Naming String := env.declare id ""

end TypeLedger.Environment
