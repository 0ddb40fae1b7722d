import TypeLedger.Source.Declaration

/-!
# The roles of identifiers

* An identifier is a specifier, a name, or part of text that is passed over. A `Role` records the
  second: the name of a record, of an enumeration, of a base class, or of what is declared.
* A parameter list may consist of one identifier. That is recorded as well, since a parameter list
  that consists of the word `void` is an empty one.
* There is one function for each part of the grammar that may meet a name, along the same recursion:
  it takes what the parts in front of a place have come to, and goes on behind them.
-/

namespace TypeLedger

/-! ## 1. Roles -/

/-- What is recorded of an identifier. -/
inductive Role
  /-- It is taken for a name. -/
  | name (name : String)
  /-- It is all that a parameter list consists of. -/
  | alone (name : String)
deriving DecidableEq, Repr

namespace Role

/-- The roles in what follows a step; nothing follows a fault. -/
def behind {n : Nat} {α : Type} (e : Except SourceError (Step n α)) (f : Step n α → List Role) :
    List Role :=
  match e with
  | .ok s => f s
  | .error _ => []

/-- The role of a name that may be missing. -/
def ofName (n : Option String) : List Role := (n.map name).toList

/-- The role of an identifier in front of the closing parenthesis. -/
def ofList : List Token → List Role
  | ⟨.ident n, _⟩ :: ⟨.mark .parenClose, _⟩ :: _ => [.alone n]
  | _ => []

end Role

open Role (behind ofName ofList)

/-! ## 2. The roles in each part of the grammar -/

/-- The names of the base classes of a class, from behind the colon. -/
def baseRoles (stop : Location) (ts : List Token) : List Role :=
  let ⟨_, r₁, _⟩ := baseWords ts
  ofName (optionalName r₁).value ++
    behind (expectIdent stop r₁) fun ⟨_, r₂, _⟩ =>
      match take? .comma r₂ with
      | none => []
      | some ⟨_, r₃, _⟩ => baseRoles stop r₃
termination_by ts.length

def optionalBaseRoles (stop : Location) (ts : List Token) : List Role :=
  match take? .colon ts with
  | none => []
  | some ⟨_, r, _⟩ => baseRoles stop r

def enumRoles (ts : List Token) : List Role := ofName (optionalName ts).value

mutual

def specifiersRoles (stop : Location) (acc : Specifiers) (sc : Scope) (ts : List Token) :
    List Role :=
  match ts with
  | [] => []
  | t :: r =>
    match acc.add? sc t.kind with
    | some acc' => specifiersRoles stop acc' sc r
    | none =>
      match t.kind with
      | .keyword (.record key) =>
        recordRoles stop key sc r ++
          behind (recordSpecifier stop key t.location sc r) fun ⟨(type, sc₁), r₁, _⟩ =>
            specifiersRoles stop { acc with named := some type } sc₁ r₁
      | .keyword .enumeration =>
        enumRoles r ++
          behind (enumSpecifier stop sc r) fun ⟨(type, sc₁), r₁, _⟩ =>
            specifiersRoles stop { acc with named := some type } sc₁ r₁
      | _ => []
termination_by (ts.length, 0)

def recordRoles (stop : Location) (key : RecordKey) (sc : Scope) (ts : List Token) : List Role :=
  let ⟨name, r₁, _⟩ := optionalName ts
  let hasBody := startsWith .braceOpen r₁ || startsWith .colon r₁
  ofName name ++
    match tagged sc key name hasBody with
    | .error _ => []
    | .ok (id, sc₁) =>
      let sc₂ := nameClass sc₁ key name id
      if hasBody then
        optionalBaseRoles stop r₁ ++
          behind (optionalBases stop key sc₂ r₁) fun ⟨_, r₂, _⟩ =>
            behind (expect stop .braceOpen r₂) fun ⟨_, r₃, _⟩ =>
              membersRoles stop key key.access sc₂ r₃
      else []
termination_by (ts.length, 0)

def membersRoles (stop : Location) (key : RecordKey) (access : Option Access) (sc : Scope)
    (ts : List Token) : List Role :=
  match ts with
  | [] => []
  | t :: r =>
    match t.kind with
    | .mark .braceClose => []
    | .keyword (.access a) =>
      behind (labelColon stop key t.location r) fun ⟨_, r₁, _⟩ =>
        membersRoles stop key (some a) sc r₁
    | .mark .semicolon => membersRoles stop key access sc r
    | _ =>
      specifiersRoles stop {} sc (t :: r) ++
        behind (specifiers stop {} sc (t :: r)) fun ⟨(specs, sc₁), r₁, _⟩ =>
          match specs.resolve t.location with
          | .error _ => []
          | .ok base =>
            memberGroupRoles stop base access sc₁ r₁ ++
              behind (memberGroup stop base access sc₁ r₁) fun ⟨(_, sc₂), r₂, _⟩ =>
                behind (expect stop .semicolon r₂) fun ⟨_, r₃, _⟩ =>
                  membersRoles stop key access sc₂ r₃
termination_by (ts.length, 5)
decreasing_by all_goals simp only [Prod.lex_def, List.length_cons, true_and] at *; omega

def memberGroupRoles (stop : Location) (base : CType) (access : Option Access) (sc : Scope)
    (ts : List Token) : List Role :=
  if startsWith .semicolon ts then [] else memberListRoles stop base access sc ts
termination_by (ts.length, 4)

def memberListRoles (stop : Location) (base : CType) (access : Option Access) (sc : Scope)
    (ts : List Token) : List Role :=
  memberDeclaratorRoles stop sc ts ++
    behind (memberDeclarator stop sc ts) fun ⟨(_, sc₁), r₁, _⟩ =>
      behind (optionalWidth stop r₁) fun ⟨_, r₂, _⟩ =>
        match take? .comma r₂ with
        | none => []
        | some ⟨_, r₃, _⟩ => memberListRoles stop base access sc₁ r₃
termination_by (ts.length, 3)

def memberDeclaratorRoles (stop : Location) (sc : Scope) (ts : List Token) : List Role :=
  if startsWith .colon ts then [] else declaratorRoles stop sc ts
termination_by (ts.length, 2)

def declaratorRoles (stop : Location) (sc : Scope) (ts : List Token) : List Role :=
  let ⟨_, r₁, _⟩ := pointerRun ts
  coreRoles stop sc r₁ ++
    behind (declaratorCore stop sc r₁) fun ⟨(_, sc₁), r₂, _⟩ => suffixRoles stop sc₁ r₂
termination_by (ts.length, 1)
decreasing_by all_goals simp only [Prod.lex_def]; omega

def coreRoles (stop : Location) (sc : Scope) (ts : List Token) : List Role :=
  match takeNested? sc ts with
  | some ⟨_, r₁, _⟩ => declaratorRoles stop sc r₁
  | none => ofName (optionalName ts).value
termination_by (ts.length, 0)

def suffixRoles (stop : Location) (sc : Scope) (ts : List Token) : List Role :=
  match take? .bracketOpen ts with
  | some ⟨_, r₁, _⟩ =>
    behind (arraySuffix stop r₁) fun ⟨_, r₂, _⟩ => suffixRoles stop sc r₂
  | none =>
    match take? .parenOpen ts with
    | some ⟨_, r₁, _⟩ =>
      functionRoles stop sc r₁ ++
        behind (functionSuffix stop sc r₁) fun ⟨(_, _, sc₁), r₂, _⟩ => suffixRoles stop sc₁ r₂
    | none => []
termination_by (ts.length, 0)

def functionRoles (stop : Location) (sc : Scope) (ts : List Token) : List Role :=
  match takeNoParameters? ts with
  | some _ => []
  | none => ofList ts ++ parametersRoles stop sc ts
termination_by (ts.length, 4)

def parametersRoles (stop : Location) (sc : Scope) (ts : List Token) : List Role :=
  match take? .ellipsis ts with
  | some _ => []
  | none =>
    specifiersRoles stop {} sc ts ++
      behind (specifiers stop {} sc ts) fun ⟨(_, sc₁), r₁, _⟩ =>
        parameterDeclaratorRoles stop sc₁ r₁ ++
          behind (parameterDeclarator stop sc₁ r₁) fun ⟨(_, sc₂), r₂, _⟩ =>
            match take? .comma r₂ with
            | none => []
            | some ⟨_, r₃, _⟩ => parametersRoles stop sc₂ r₃
termination_by (ts.length, 3)
decreasing_by all_goals simp only [Prod.lex_def, true_and]; omega

def parameterDeclaratorRoles (stop : Location) (sc : Scope) (ts : List Token) : List Role :=
  if startsWith .comma ts || startsWith .parenClose ts then [] else declaratorRoles stop sc ts
termination_by (ts.length, 2)

end

/-! ## 3. The roles in a source -/

def declaratorListRoles (stop : Location) (base : CType) (storage : Option StorageClass)
    (sc : Scope) (ts : List Token) : List Role :=
  declaratorRoles stop sc ts ++
    behind (declarator stop sc ts) fun ⟨(d, sc₁), r₁, _⟩ =>
      match d.name with
      | none => []
      | some name =>
        let type := d.apply base
        let sc₂ :=
          if storage = some .typeSynonym then sc₁.nameType name (.synonym .none name type) else sc₁
        if type.isFunction && startsWith .braceOpen r₁ then []
        else
          behind (skipInitializer stop r₁) fun ⟨_, r₂, _⟩ =>
            match take? .comma r₂ with
            | some ⟨_, r₃, _⟩ => declaratorListRoles stop base storage sc₂ r₃
            | none => []
termination_by ts.length

def externalRoles (stop : Location) (sc : Scope) (ts : List Token) : List Role :=
  match take? .semicolon ts with
  | some _ => []
  | none =>
    specifiersRoles stop {} sc ts ++
      behind (specifiers stop {} sc ts) fun ⟨(specs, sc₁), r₁, _⟩ =>
        match specs.resolve (place stop ts) with
        | .error _ => []
        | .ok base =>
          match take? .semicolon r₁ with
          | some _ => []
          | none => declaratorListRoles stop base specs.storage sc₁ r₁

def declarationsRoles (stop : Location) (sc : Scope) (ts : List Token) : List Role :=
  if ts.isEmpty then []
  else
    externalRoles stop sc ts ++
      behind (externalDeclaration stop sc ts) fun ⟨(_, sc₁), r, _⟩ => declarationsRoles stop sc₁ r
termination_by ts.length

/-- The roles of the identifiers of a source, in the order in which they are taken, with the records
and enumerations of `ctx` already declared. -/
def sourceRoles (source : String) (ctx : Context := {}) : List Role :=
  match tokenize source.toUTF8.toList with
  | .ok (ts, stop) => declarationsRoles stop { context := ctx } ts
  | .error _ => []

end TypeLedger
