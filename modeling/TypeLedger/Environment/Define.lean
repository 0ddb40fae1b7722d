import TypeLedger.Environment.Declare

/-!
# Definitions of aggregates

* `define` writes the definition of a struct, union or class on one line. The members of a class
  stand under labels, of which one is written where the access changes; a member of a class without
  an access leaves a comment.
* `forward` writes the declaration that has to come before a use, `basesText` what stands behind
  the colon of a class, `declareSymbols` the declarations of global symbols.
-/

namespace TypeLedger.Environment

/-- The name of a struct, union, class or enumeration, given to it now if it has none yet. -/
def aggregateName? (env : Environment) (id : TypeId) : StateM Naming (Option String) :=
  match (env.body? id).bind TypeBody.tag? with
  | some tag => some <$> Naming.name tag
  | none => pure none

/-- The name of a base class; what is no struct, union or class is incomplete. -/
def baseName (env : Environment) (id : TypeId) : StateM Naming String :=
  match env.body? id with
  | some (.aggregate _ tag _ _ _) => Naming.name tag
  | _ => pure (Fragment.incomplete "")

/-- A base class as a class states it. -/
def edgeText (env : Environment) (e : BaseEdge) : StateM Naming String := do
  let name ← env.baseName e.base
  return Fragment.ofWords [e.access.word, if e.isVirtual then "virtual" else "", name]

/-- The base classes of a class. -/
def basesText (env : Environment) (id : TypeId) : StateM Naming String := do
  let texts ← (env.baseEdges id).mapM env.edgeText
  return Fragment.join ", " texts

/-- The declaration of a struct, union or class without its body. -/
def forward? (env : Environment) (id : TypeId) : StateM Naming (Option String) :=
  match env.body? id with
  | some (.aggregate key tag _ _ _) => do
    let name ← Naming.name tag
    return some (Fragment.beside key.word (name ++ ";"))
  | _ => pure none

/-- The declaration of a member. -/
def memberText (env : Environment) (m : Member) : StateM Naming String := do
  let text ← env.declare m.type (m.name.getD "")
  let width := m.bitWidth.elim "" fun w => ": " ++ toString w
  return Fragment.beside text width ++ ";"

/-- The comment in place of a member of a class without an access. -/
def ignoredMember : String := "/* Ignored a member with no access specifier */"

/-- The members of a class, where the label in force is that of `current`. -/
def classMembers (env : Environment) (current : Option Access) :
    List Member → StateM Naming (List String)
  | [] => pure []
  | m :: ms =>
    match m.access with
    | none => do
      let texts ← classMembers env current ms
      return ignoredMember :: texts
    | some access => do
      let text ← env.memberText m
      let texts ← classMembers env (some access) ms
      return (if current = some access then [] else [access.word ++ ":"]) ++ text :: texts

/-- What stands between the name of a class and its brace. -/
def baseClauseText (env : Environment) (key : RecordKey) (id : TypeId) :
    StateM Naming (List String) :=
  match key with
  | .classKey => do
    let text ← env.basesText id
    return if text.isEmpty then [] else [":", text]
  | _ => pure []

/-- The members of an aggregate with their labels. -/
def bodyTexts (env : Environment) (key : RecordKey) (members : List Member) :
    StateM Naming (List String) :=
  match key with
  | .classKey => env.classMembers none members
  | _ => members.mapM env.memberText

/-- The definition of a struct, union or class. An enumeration has none, but it is named. -/
def define? (env : Environment) (id : TypeId) : StateM Naming (Option String) :=
  match env.body? id with
  | some (.aggregate key tag _ members _) => do
    let name ← Naming.name tag
    let bases ← env.baseClauseText key id
    let texts ← env.bodyTexts key members
    return some (Fragment.ofWords ([key.word, name] ++ bases ++ ["\x7b"] ++ texts ++ ["\x7d;"]))
  | some (.enumeration tag) => do
    let _ ← Naming.name tag
    return none
  | _ => pure none

/-- The declaration of a global symbol. -/
def symbolText (env : Environment) (s : Symbol) : StateM Naming String := do
  let text ← env.declare s.type (s.name.getD "")
  return text ++ ";"

/-- The declarations of global symbols. -/
def declareSymbols (env : Environment) (symbols : List Symbol) : StateM Naming (List String) :=
  symbols.mapM env.symbolText

end TypeLedger.Environment
