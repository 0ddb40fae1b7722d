import TypeLedger.Declarator
import TypeLedger.Source.Reading
import TypeLedger.Source.Scope

/-!
# The grammar of declarations

* `specifiers` reads the words in front of a declarator, `declarator` the declarator, `members` the
  body of a record. They call each other: a parameter list holds specifiers, a specifier may be a
  record with a body, and a member has a declarator with a parameter list.
* Every call either has fewer tokens to read than its caller, or as many and a lower rank: the rank
  is the second number of each `termination_by`.
* A declared record or enumeration enters the scope where it is read, so the scope is handed on
  even through parameter lists.
-/

namespace TypeLedger

/-! ## 1. Specifiers -/

/-- The words read so far in front of a declarator. -/
structure Specifiers where
  storage : Option StorageClass := none
  quals : Qualifiers := .none
  words : List BuiltinWord := []
  complex : Bool := false
  /-- The record, enumeration or type name among the words. -/
  named : Option CType := none

namespace Specifiers

variable [Counting]

/-- The words with one more, if the token is a specifier by itself. A type name is one only while
no other word has named a type. -/
def add? (s : Specifiers) (sc : Scope) : TokenKind → Option Specifiers
  | .keyword (.storage c) => some { s with storage := some c }
  | .keyword .inlineFunction => some s
  | .keyword (.qualifier q) => some { s with quals := s.quals.union q.alone }
  | .keyword (.builtin w) => some { s with words := w :: s.words }
  | .keyword .complex => some { s with complex := true }
  | .ident name =>
    if s.named.isNone ∧ Counting.isEmpty s.words then
      (sc.typeName? name).map fun t => { s with named := some t }
    else none
  | _ => none

/-- The type of the words, without qualifiers and before `_Complex` is applied. -/
def base (s : Specifiers) : Except ParseFault CType :=
  match s.named with
  | some t => if Counting.isEmpty s.words then .ok t else .error .nameAndBuiltin
  | none =>
    if Counting.isEmpty s.words then
      if s.complex then .ok (.builtin .none "double") else .error .missingType
    else
      match Counting.spelling? s.words with
      | some spelling => .ok (.builtin .none spelling)
      | none => .error (.noSuchBuiltin (Counting.shown s.words))

/-- The type that the words name; a fault is reported at `l`. -/
def resolve (s : Specifiers) (l : Location) : Except SourceError CType :=
  match s.base with
  | .ok t => .ok ((if s.complex then .complex .none t else t).qualified s.quals)
  | .error f => .error (faultAt l f)

end Specifiers

/-! ## 2. Parts without a scope -/

/-- Takes the qualifiers at the front. -/
def qualifierRun : (ts : List Token) → Reads ts Qualifiers
  | [] => ⟨.none, [], by simp⟩
  | t :: ts =>
    match t.kind with
    | .keyword (.qualifier q) =>
      let ⟨quals, r, h⟩ := qualifierRun ts
      ⟨q.alone.union quals, r, by simp only [List.length_cons]; omega⟩
    | _ => ⟨.none, t :: ts, by simp⟩

/-- Takes the pointer mark at the front, if there is one. -/
def takePointer? (ts : List Token) : Option (Takes ts PointerKind) :=
  match ts with
  | t :: rest =>
    match t.kind with
    | .mark m => m.pointerKind?.map fun k => ⟨k, rest, length_rest_lt t rest⟩
    | _ => none
  | [] => none

/-- Takes the pointer marks at the front, each with its qualifiers, the outermost first. -/
def pointerRun (ts : List Token) : Reads ts (List Derivation) :=
  match takePointer? ts with
  | none => ⟨[], ts, length_lt_succ ts⟩
  | some ⟨kind, r₁, h₁⟩ =>
    let ⟨quals, r₂, h₂⟩ := qualifierRun r₁
    let ⟨derived, r₃, h₃⟩ := pointerRun r₂
    ⟨.pointer kind quals :: derived, r₃, by omega⟩
termination_by ts.length

/-- The words that may stand behind an opening bracket and say nothing about the type. -/
def isArrayWord : TokenKind → Bool
  | .keyword (.storage .static) | .keyword (.qualifier _) => true
  | _ => false

/-- Takes a size and the closing bracket directly behind it. -/
def closedSize? (ts : List Token) : Option (Takes ts ArraySize) :=
  match ts with
  | ⟨.intLit n, _⟩ :: ⟨.mark .bracketClose, _⟩ :: rest =>
    some ⟨.fixed n, rest, by simp only [List.length_cons]; omega⟩
  | ⟨.mark .star, _⟩ :: ⟨.mark .bracketClose, _⟩ :: rest =>
    some ⟨.unknown, rest, by simp only [List.length_cons]; omega⟩
  | _ => none

/-- Takes a size and its closing bracket. Only a literal by itself gives the size; every other
expression is passed over. -/
def sizeBefore (stop : Location) (ts : List Token) : Except SourceError (Takes ts ArraySize) :=
  match closedSize? ts with
  | some s => .ok s
  | none => do
    let ⟨_, r₁, h₁⟩ ← skipTo stop (TokenKind.isMark .bracketClose) ts
    let ⟨_, r₂, h₂⟩ ← expect stop .bracketClose r₁
    return ⟨.unknown, r₂, by omega⟩

/-- Takes an array suffix, from behind its opening bracket. -/
def arraySuffix (stop : Location) (ts : List Token) : Except SourceError (Takes ts ArraySize) := do
  let inner := ts.dropWhile fun t => isArrayWord t.kind
  have hi : inner.length ≤ ts.length := (List.dropWhile_suffix _).length_le
  let ⟨size, r, h⟩ ← sizeBefore stop inner
  return ⟨size, r, length_lt_of_le_of_lt hi h⟩

/-- A token that, behind a parenthesis, begins a declarator and no parameter. -/
def beginsDeclarator (sc : Scope) : TokenKind → Bool
  | .mark m => m.pointerKind?.isSome || m == .parenOpen || m == .bracketOpen
  | .ident name => (sc.typeName? name).isNone
  | _ => false

/-- Takes the parenthesis at the front if a declarator stands behind it, and not parameters. -/
def takeNested? (sc : Scope) (ts : List Token) : Option (Takes ts Unit) :=
  match take? .parenOpen ts with
  | some s => if s.rest.head?.any fun t => beginsDeclarator sc t.kind then some s else none
  | none => none

/-- Takes the end of an empty parameter list, from behind its opening parenthesis. -/
def takeNoParameters? (ts : List Token) : Option (Takes ts Unit) :=
  match ts with
  | ⟨.mark .parenClose, _⟩ :: rest => some ⟨(), rest, by simp only [List.length_cons]; omega⟩
  | ⟨.keyword (.builtin .void), _⟩ :: ⟨.mark .parenClose, _⟩ :: rest =>
    some ⟨(), rest, by simp only [List.length_cons]; omega⟩
  | _ => none

/-- The words in front of a base class: the last access named, and whether it is virtual. -/
def baseWords : (ts : List Token) → Reads ts (Option Access × Bool)
  | [] => ⟨(none, false), [], by simp⟩
  | t :: ts =>
    match t.kind with
    | .keyword (.access a) =>
      let ⟨(access, isVirtual), r, h⟩ := baseWords ts
      ⟨(access.or (some a), isVirtual), r, by simp only [List.length_cons]; omega⟩
    | .keyword .virtualBase =>
      let ⟨(access, _), r, h⟩ := baseWords ts
      ⟨(access, true), r, by simp only [List.length_cons]; omega⟩
    | _ => ⟨(none, false), t :: ts, by simp⟩

/-- Takes the base classes of a class, from behind the colon. -/
def baseClause (stop : Location) (sc : Scope) (ts : List Token) :
    Except SourceError (Takes ts (List BaseDecl)) := do
  let ⟨(access, isVirtual), r₁, h₁⟩ := baseWords ts
  let ⟨name, r₂, h₂⟩ ← expectIdent stop r₁
  match sc.recordType? name with
  | none => .error (faultAt (place stop r₁) (.unknownBase name))
  | some type =>
    let base : BaseDecl := ⟨type, access.getD .priv, isVirtual⟩
    match take? .comma r₂ with
    | none => return ⟨[base], r₂, by omega⟩
    | some ⟨_, r₃, h₃⟩ =>
      let ⟨bases, r₄, h₄⟩ ← baseClause stop sc r₃
      return ⟨base :: bases, r₄, by omega⟩
termination_by ts.length

/-- Takes an enumeration, from behind its keyword. Its values are passed over. -/
def enumSpecifier (stop : Location) (sc : Scope) (ts : List Token) :
    Except SourceError (Reads ts (CType × Scope)) := do
  let ⟨name, r₁, h₁⟩ := optionalName ts
  let (id, context) :=
    match name.bind sc.context.findEnum? with
    | some id => (id, sc.context)
    | none => sc.context.declareEnum name
  let value : CType × Scope := (.enumeration .none id, { sc with context })
  if startsWith .braceOpen r₁ then
    let ⟨_, r₂, h₂⟩ ← skipBody stop r₁
    return ⟨value, r₂, by omega⟩
  else
    return ⟨value, r₁, h₁⟩

/-- The record that a keyword and a name mean: the one declared under the name, if there is one,
else a new one. A second body under a name is refused. -/
def tagged (sc : Scope) (key : RecordKey) (name : Option String) (hasBody : Bool) :
    Except ParseFault (RecordId × Scope) :=
  match name with
  | none =>
    let (id, context) := sc.context.declareRecord key none
    .ok (id, { sc with context })
  | some n =>
    match sc.context.findRecord? n with
    | some id =>
      if hasBody ∧ (sc.context.record? id).any RecordDecl.isComplete then .error (.redefinition n)
      else .ok (id, sc)
    | none =>
      let (id, context) := sc.context.declareRecord key (some n)
      .ok (id, { sc with context })

/-- The name of a class is a type name from its first mention on. -/
def nameClass (sc : Scope) (key : RecordKey) (name : Option String) (id : RecordId) : Scope :=
  match key, name with
  | .classKey, some n => sc.nameType n (.record .none id)
  | _, _ => sc

/-- Takes the colon and the base classes behind it, if there is a colon. -/
def optionalBases (stop : Location) (key : RecordKey) (sc : Scope) (ts : List Token) :
    Except SourceError (Reads ts (List BaseDecl)) :=
  match take? .colon ts with
  | none => return ⟨[], ts, length_lt_succ ts⟩
  | some ⟨_, r₁, h₁⟩ =>
    if key = .classKey then do
      let ⟨bases, r₂, h₂⟩ ← baseClause stop sc r₁
      return ⟨bases, r₂, by omega⟩
    else .error (faultAt (place stop ts) .baseOutsideClass)

/-- Takes the width of a bit field behind its colon, if there is a colon. -/
def optionalWidth (stop : Location) (ts : List Token) :
    Except SourceError (Reads ts (Option UInt32)) :=
  match take? .colon ts with
  | none => return ⟨none, ts, length_lt_succ ts⟩
  | some ⟨_, r₁, h₁⟩ => do
    let ⟨width, r₂, h₂⟩ ← bitWidth stop r₁
    return ⟨some width, r₂, by omega⟩

/-- A declaration names one type. -/
def refuseSecond (stop : Location) (acc : Specifiers) (ts : List Token) :
    Except SourceError Unit :=
  if acc.named.isSome then .error (faultAt (place stop ts) .twoTypeNames) else .ok ()

/-- Takes a label's colon; only a class has labels. -/
def labelColon (stop : Location) (key : RecordKey) (l : Location) (ts : List Token) :
    Except SourceError (Takes ts Unit) :=
  if key = .classKey then expect stop .colon ts else .error (faultAt l .labelOutsideClass)

/-- The access of the members in front of any label. -/
def RecordKey.access : RecordKey → Option Access
  | .classKey => some .priv
  | .structKey | .unionKey => none

/-! ## 3. The recursive part -/

variable [Counting]

mutual

/-- Takes the specifiers at the front; `acc` holds those before them. -/
def specifiers (stop : Location) (acc : Specifiers) (sc : Scope) (ts : List Token) :
    Except SourceError (Reads ts (Specifiers × Scope)) :=
  match ts with
  | [] => .ok ⟨(acc, sc), [], by simp⟩
  | t :: r =>
    match acc.add? sc t.kind with
    | some acc' => do
      let ⟨v, r₁, h₁⟩ ← specifiers stop acc' sc r
      return ⟨v, r₁, by simp only [List.length_cons]; omega⟩
    | none =>
      match t.kind with
      | .keyword (.record key) => do
        let ⟨(type, sc₁), r₁, h₁⟩ ← recordSpecifier stop key t.location sc r
        refuseSecond stop acc r₁
        let ⟨v, r₂, h₂⟩ ← specifiers stop { acc with named := some type } sc₁ r₁
        return ⟨v, r₂, by simp only [List.length_cons]; omega⟩
      | .keyword .enumeration => do
        let ⟨(type, sc₁), r₁, h₁⟩ ← enumSpecifier stop sc r
        refuseSecond stop acc r₁
        let ⟨v, r₂, h₂⟩ ← specifiers stop { acc with named := some type } sc₁ r₁
        return ⟨v, r₂, by simp only [List.length_cons]; omega⟩
      | _ => .ok ⟨(acc, sc), t :: r, by simp⟩
termination_by (ts.length, 0)

/-- Takes a record, from behind its keyword, which stands at `l`. A colon or a brace opens its
body; without one it is only named. -/
def recordSpecifier (stop : Location) (key : RecordKey) (l : Location) (sc : Scope)
    (ts : List Token) : Except SourceError (Reads ts (CType × Scope)) :=
  let ⟨name, r₁, h₁⟩ := optionalName ts
  let hasBody := startsWith .braceOpen r₁ || startsWith .colon r₁
  match tagged sc key name hasBody with
  | .error f => .error (faultAt l f)
  | .ok (id, sc₁) =>
    let type : CType := .record .none id
    let sc₂ := nameClass sc₁ key name id
    if hasBody then do
      let ⟨bases, r₂, h₂⟩ ← optionalBases stop key sc₂ r₁
      let ⟨_, r₃, h₃⟩ ← expect stop .braceOpen r₂
      let ⟨(list, sc₃), r₄, h₄⟩ ← members stop key key.access sc₂ r₃
      let ⟨_, r₅, h₅⟩ ← expect stop .braceClose r₄
      let context := sc₃.context.completeRecord id list bases
      return ⟨(type, { sc₃ with context }), r₅, by omega⟩
    else
      .ok ⟨(type, sc₂), r₁, h₁⟩
termination_by (ts.length, 0)

/-- Takes the members of a record up to the brace that closes its body. The access in force goes
with each of them; a label changes it. -/
def members (stop : Location) (key : RecordKey) (access : Option Access) (sc : Scope)
    (ts : List Token) : Except SourceError (Reads ts (List MemberDecl × Scope)) :=
  match ts with
  | [] => .error (faultAt stop .endOfFile)
  | t :: r =>
    match t.kind with
    | .mark .braceClose => .ok ⟨([], sc), t :: r, by simp⟩
    | .keyword (.access a) => do
      let ⟨_, r₁, h₁⟩ ← labelColon stop key t.location r
      let ⟨v, r₂, h₂⟩ ← members stop key (some a) sc r₁
      return ⟨v, r₂, by simp only [List.length_cons]; omega⟩
    | .mark .semicolon => do
      let ⟨v, r₁, h₁⟩ ← members stop key access sc r
      return ⟨v, r₁, by simp only [List.length_cons]; omega⟩
    | _ => do
      let ⟨(specs, sc₁), r₁, h₁⟩ ← specifiers stop {} sc (t :: r)
      let base ← specs.resolve t.location
      let ⟨(own, sc₂), r₂, h₂⟩ ← memberGroup stop base access sc₁ r₁
      let ⟨_, r₃, h₃⟩ ← expect stop .semicolon r₂
      let ⟨(list, sc₃), r₄, h₄⟩ ← members stop key access sc₂ r₃
      return ⟨(own ++ list, sc₃), r₄, by omega⟩
termination_by (ts.length, 5)
decreasing_by all_goals simp only [Prod.lex_def, List.length_cons, true_and] at *; omega

/-- Takes the members between specifiers and their semicolon. Without a declarator there is one
only if the type is a record without a name. -/
def memberGroup (stop : Location) (base : CType) (access : Option Access) (sc : Scope)
    (ts : List Token) : Except SourceError (Reads ts (List MemberDecl × Scope)) :=
  if startsWith .semicolon ts then
    let own := if sc.isAnonymousRecord base then [⟨none, base, access, none⟩] else []
    .ok ⟨(own, sc), ts, length_lt_succ ts⟩
  else
    memberList stop base access sc ts
termination_by (ts.length, 4)

/-- Takes members that share their specifiers, with commas between. -/
def memberList (stop : Location) (base : CType) (access : Option Access) (sc : Scope)
    (ts : List Token) : Except SourceError (Reads ts (List MemberDecl × Scope)) := do
  let ⟨(d, sc₁), r₁, h₁⟩ ← memberDeclarator stop sc ts
  let ⟨width, r₂, h₂⟩ ← optionalWidth stop r₁
  let own : MemberDecl := ⟨d.name, d.apply base, access, width⟩
  match take? .comma r₂ with
  | none => return ⟨([own], sc₁), r₂, by omega⟩
  | some ⟨_, r₃, h₃⟩ =>
    let ⟨(list, sc₂), r₄, h₄⟩ ← memberList stop base access sc₁ r₃
    return ⟨(own :: list, sc₂), r₄, by omega⟩
termination_by (ts.length, 3)

/-- Takes the declarator of a member. A colon in its place begins a bit field without a name. -/
def memberDeclarator (stop : Location) (sc : Scope) (ts : List Token) :
    Except SourceError (Reads ts (Declarator × Scope)) :=
  if startsWith .colon ts then .ok ⟨(⟨none, []⟩, sc), ts, length_lt_succ ts⟩
  else declarator stop sc ts
termination_by (ts.length, 2)

/-- Takes a declarator, with or without a name. -/
def declarator (stop : Location) (sc : Scope) (ts : List Token) :
    Except SourceError (Reads ts (Declarator × Scope)) := do
  let ⟨pointers, r₁, h₁⟩ := pointerRun ts
  let ⟨(inner, sc₁), r₂, h₂⟩ ← declaratorCore stop sc r₁
  let ⟨(suffixes, sc₂), r₃, h₃⟩ ← suffixRun stop sc₁ r₂
  return ⟨(⟨inner.name, inner.derivations ++ suffixes ++ pointers.reverse⟩, sc₂), r₃, by omega⟩
termination_by (ts.length, 1)
decreasing_by all_goals simp only [Prod.lex_def]; omega

/-- Takes what stands between the pointer marks and the suffixes of a declarator: a declarator in
parentheses, a name, or nothing. -/
def declaratorCore (stop : Location) (sc : Scope) (ts : List Token) :
    Except SourceError (Reads ts (Declarator × Scope)) :=
  match takeNested? sc ts with
  | some ⟨_, r₁, h₁⟩ => do
    let ⟨v, r₂, h₂⟩ ← declarator stop sc r₁
    let ⟨_, r₃, h₃⟩ ← expect stop .parenClose r₂
    return ⟨v, r₃, by omega⟩
  | none =>
    let ⟨name, r₁, h₁⟩ := optionalName ts
    .ok ⟨(⟨name, []⟩, sc), r₁, h₁⟩
termination_by (ts.length, 0)

/-- Takes the array and function suffixes at the front. -/
def suffixRun (stop : Location) (sc : Scope) (ts : List Token) :
    Except SourceError (Reads ts (List Derivation × Scope)) :=
  match take? .bracketOpen ts with
  | some ⟨_, r₁, h₁⟩ => do
    let ⟨size, r₂, h₂⟩ ← arraySuffix stop r₁
    let ⟨(derived, sc₁), r₃, h₃⟩ ← suffixRun stop sc r₂
    return ⟨(.array size :: derived, sc₁), r₃, by omega⟩
  | none =>
    match take? .parenOpen ts with
    | some ⟨_, r₁, h₁⟩ => do
      let ⟨(params, variadic, sc₁), r₂, h₂⟩ ← functionSuffix stop sc r₁
      let ⟨(derived, sc₂), r₃, h₃⟩ ← suffixRun stop sc₁ r₂
      return ⟨(.function params variadic :: derived, sc₂), r₃, by omega⟩
    | none => .ok ⟨([], sc), ts, length_lt_succ ts⟩
termination_by (ts.length, 0)

/-- Takes a parameter list and its closing parenthesis, from behind the opening one. -/
def functionSuffix (stop : Location) (sc : Scope) (ts : List Token) :
    Except SourceError (Takes ts (List CType × Bool × Scope)) :=
  match takeNoParameters? ts with
  | some ⟨_, r₁, h₁⟩ => .ok ⟨([], false, sc), r₁, h₁⟩
  | none => do
    let ⟨v, r₁, h₁⟩ ← parameters stop sc ts
    let ⟨_, r₂, h₂⟩ ← expect stop .parenClose r₁
    return ⟨v, r₂, by omega⟩
termination_by (ts.length, 4)

/-- Takes the parameters of a function, with commas between. Their names are dropped. An ellipsis
ends the list. -/
def parameters (stop : Location) (sc : Scope) (ts : List Token) :
    Except SourceError (Reads ts (List CType × Bool × Scope)) :=
  match take? .ellipsis ts with
  | some ⟨_, r₁, h₁⟩ => .ok ⟨([], true, sc), r₁, lt_succ_of_length_lt h₁⟩
  | none => do
    let ⟨(specs, sc₁), r₁, h₁⟩ ← specifiers stop {} sc ts
    let base ← specs.resolve (place stop ts)
    let ⟨(d, sc₂), r₂, h₂⟩ ← parameterDeclarator stop sc₁ r₁
    let type := d.apply base
    match take? .comma r₂ with
    | none => return ⟨([type], false, sc₂), r₂, by omega⟩
    | some ⟨_, r₃, h₃⟩ =>
      let ⟨(types, variadic, sc₃), r₄, h₄⟩ ← parameters stop sc₂ r₃
      return ⟨(type :: types, variadic, sc₃), r₄, by omega⟩
termination_by (ts.length, 3)
decreasing_by all_goals simp only [Prod.lex_def, true_and]; omega

/-- Takes the declarator of a parameter, which may be missing. -/
def parameterDeclarator (stop : Location) (sc : Scope) (ts : List Token) :
    Except SourceError (Reads ts (Declarator × Scope)) :=
  if startsWith .comma ts || startsWith .parenClose ts then
    .ok ⟨(⟨none, []⟩, sc), ts, length_lt_succ ts⟩
  else declarator stop sc ts
termination_by (ts.length, 2)

end

end TypeLedger
