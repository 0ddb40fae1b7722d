import TypeLedger.Environment.Define
import TypeLedger.Environment.Order
import TypeLedger.Registry
import TypeLedger.Source.Declaration
import TypeLedger.Table.Codec

/-!
# From a source to a table and back

* `generate` reads the declarations of a source and lists their types in a table. A typedef and a
  declaration without a name only register their type; every other name is a global symbol.
* `render` turns a table into text: first the aggregates by name, then their definitions, then the
  global symbols.
* Both work in `Run`: what they report on the way stays when they fail.
-/

namespace TypeLedger

/-! ## 1. Runs -/

/-- Why a run failed. -/
inductive Failure
  /-- A file cannot be read, in the words of the system. -/
  | unreadable (words : String)
  | source (path : String) (error : SourceError)
  | table (fault : TableFault)
  /-- An entry of the table that a single declaration was asked of. -/
  | entry (fault : TableFault)
  | json
  | renamesUnreadable (words : String)
  | renames (fault : RenamingFault)
  | noInput
deriving DecidableEq, Repr

def Failure.message : Failure → String
  | .unreadable words => "I/O error: " ++ words
  | .source path e => "Parse error: " ++ path ++ ":" ++ e.message
  | .table f => "Type table error: " ++ f.message
  | .entry f => f.message
  | .json => "JSON error: the text is no type table"
  | .renamesUnreadable words => "cannot read typename map: " ++ words
  | .renames f => f.message
  | .noInput => "Input file is required"

/-- A computation that may fail and that reports lines. -/
abbrev Run (α : Type) := ExceptT Failure (StateM (Array String)) α

namespace Run

/-- Reports a line. -/
def say (line : String) : Run Unit := fun log => (.ok (), log.push line)

/-- Reports lines if the condition holds. -/
def sayIf (condition : Bool) (lines : List String) : Run Unit :=
  fun log => (.ok (), if condition then log ++ lines else log)

/-- Fails as `f` says if `e` has failed. -/
def lift {ε α : Type} (f : ε → Failure) (e : Except ε α) : Run α :=
  fun log => (e.mapError f, log)

/-- The outcome of a run and what it has reported. -/
def result {α : Type} (r : Run α) : Except Failure α × List String :=
  let (outcome, log) := ExceptT.run r #[]
  (outcome, log.toList)

end Run

/-- The texts of files by their paths, or the words of the system why there is none. -/
abbrev Files := String → Except String String

/-! ## 2. Settings -/

/-- What a run is asked for. -/
structure Settings where
  input : String
  renames : Option String := none
  noTable : Bool := false
  label : Bool := false
  verbose : Bool := false
  detail : Detail := .quiet

/-! ## 3. Generation -/

/-- A table and what its registry counts. -/
structure Generated where
  table : Table
  stats : Registry.Stats

/-- The global symbol that a declaration states, whose type has the identifier `id`. -/
def Declaration.symbol? (d : Declaration) (id : TypeId) : Option Symbol :=
  if d.isTypeSynonym then none else d.name.map fun name => { name := some name, type := id }

/-- Registers the types of declarations in their order. -/
def registerAll (r : Registry) : List Declaration → List Symbol × Registry
  | [] => ([], r)
  | d :: ds =>
    let (id, r) := r.typeName d.type
    let (symbols, r) := registerAll r ds
    ((d.symbol? id).toList ++ symbols, r)

/-- Reads the renaming that the settings name. -/
def loadRenames (files : Files) (s : Settings) : Run (Option Renaming) :=
  match s.renames with
  | none => pure none
  | some path => do
    Run.sayIf s.verbose ["use " ++ path ++ " as a typenamemap file"]
    let text ← Run.lift .renamesUnreadable (files path)
    let m ← Run.lift .renames (Renaming.read text)
    return some m

/-- The table of a source. -/
def generateFrom (files : Files) (s : Settings) (source : String) : Run Generated := do
  let (decls, scope) ← Run.lift (.source s.input) (parseSource source)
  Run.sayIf s.verbose ["Parsed " ++ toString decls.length ++ " declarations"]
  let renames ← loadRenames files s
  let start : Registry :=
    { context := scope.context, renames, hasLabel := s.label, detail := s.detail }
  let (globals, registry) := registerAll start decls
  Run.sayIf true (registry.ledger.notices.toList.map Notice.text)
  Run.sayIf (s.detail == .full) registry.dump
  let types := if s.noTable then [] else registry.table.types
  let stats := registry.stats
  Run.sayIf s.verbose
    ["Registered " ++ stats.text, "Global symbols: " ++ toString globals.length]
  return ⟨⟨types, globals⟩, stats⟩

/-- The table of the input file. -/
def generate (files : Files) (s : Settings) : Run Generated := do
  let source ← Run.lift .unreadable (files s.input)
  generateFrom files s source

/-! ## 4. Rendering -/

/-- The text of a table in its parts; declarations and definitions come with their identifiers. -/
structure Rendering where
  forwards : List (TypeId × String)
  definitions : List (TypeId × String)
  symbols : List String

/-- All lines of a rendering. -/
def Rendering.lines (r : Rendering) : List String :=
  r.forwards.map Prod.snd ++ r.definitions.map Prod.snd ++ r.symbols

/-- The text of each identifier that `f` has one for. -/
def textsOf (f : TypeId → StateM Naming (Option String)) :
    List TypeId → StateM Naming (List (TypeId × String))
  | [] => pure []
  | id :: ids => do
    let text ← f id
    let texts ← textsOf f ids
    return (text.map fun t => (id, t)).toList ++ texts

/-- The text of an environment and of global symbols. -/
def renderEnvironment (env : Environment) (symbols : List Symbol) : StateM Naming Rendering := do
  let forwards ← textsOf env.forward? env.ids
  let definitions ← textsOf env.define? env.definitionOrder
  let texts ← env.declareSymbols symbols
  return ⟨forwards, definitions, texts⟩

/-- Lines as a text. -/
def linesText (lines : List String) : String := String.join (lines.map (· ++ "\n"))

/-- The text of a table. -/
def render (s : Settings) (t : Table) : Run String := do
  let (checked, naming) := Environment.ofEntries t.types {}
  let env ← Run.lift .table checked
  let (rendering, _) := renderEnvironment env t.globals naming
  let lines := rendering.lines
  Run.sayIf (s.detail != .quiet)
    (rendering.forwards.map fun p => "[trace] forward " ++ p.1.text)
  Run.sayIf (s.detail != .quiet)
    (rendering.definitions.map fun p => "[trace] define " ++ p.1.text)
  Run.sayIf s.verbose
    ["Rendered " ++ toString lines.length ++ " declarations from " ++ toString env.size
      ++ " entries"]
  return linesText lines

/-- Reads the table of a file. -/
def loadTable (files : Files) (path : String) : Run Table := do
  let text ← Run.lift .unreadable (files path)
  match Table.read? text with
  | some t => return t
  | none => throw .json

end TypeLedger
