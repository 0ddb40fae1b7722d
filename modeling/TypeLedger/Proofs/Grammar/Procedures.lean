import TypeLedger.Source.Declaration

/-!
# The grammar as procedures that call each other

* `Procedure`: the procedures and the loops of the grammar. A loop is a procedure that calls itself
  to go round once more.
* `Script`: what a procedure does by itself, up to its calls. It does not recurse, and relies on
  nothing about how many tokens a call leaves. `script` gives the script of every procedure.
* `Script.run` takes the replies to calls from elsewhere, and `Script.calls` lists the calls that
  are made.
-/

namespace TypeLedger

/-! ## 1. Procedures -/

/-- The procedures and the loops of the grammar. -/
inductive Procedure
  -- The declarations of a text are a loop, and so are the declarators of one of them.
  | declarations | external | declaratorList
  -- Three loops: the words of the specifiers, the base classes, and the words in front of each.
  | specifiers | record | baseClause | baseWords | enumeration
  -- The members of a body are a loop, and so are the declarators of one of them.
  | members | memberGroup | memberList | memberDeclarator
  -- Three loops: the pointer marks, the qualifiers behind each of them, and the suffixes.
  | declarator | pointers | qualifiers | core | suffixes
  -- The words in front of a size are a loop, and so are the parameters.
  | arraySuffix | arrayWords | functionSuffix | parameters | parameterDeclarator
  -- Skipped text is passed over in a loop.
  | body | skip
deriving DecidableEq, Repr

namespace Procedure

/-- What a `Procedure` is given besides the tokens in front of it. -/
abbrev Args : Procedure → Type
  | declarations | external | baseClause | enumeration | memberDeclarator | declarator | core
  | suffixes | functionSuffix | parameters | parameterDeclarator => Scope
  | declaratorList => CType × Option StorageClass × Scope
  | specifiers => Specifiers × Scope
  | record => RecordKey × Location × Scope
  | members => RecordKey × Option Access × Scope
  | memberGroup | memberList => CType × Option Access × Scope
  | baseWords | pointers | qualifiers | arraySuffix | arrayWords | body => Unit
  | skip => (TokenKind → Bool) × Nat

/-- What a `Procedure` finds, besides the tokens that it leaves. -/
abbrev Value : Procedure → Type
  | declarations | external | declaratorList => List Declaration × Scope
  | specifiers => Specifiers × Scope
  | record | enumeration => CType × Scope
  | baseClause => List BaseDecl
  | baseWords => Option Access × Bool
  | members | memberGroup | memberList => List MemberDecl × Scope
  | memberDeclarator | declarator | core | parameterDeclarator => Declarator × Scope
  | pointers => List Derivation
  | qualifiers => Qualifiers
  | suffixes => List Derivation × Scope
  | arraySuffix => ArraySize
  | functionSuffix | parameters => List CType × Bool × Scope
  | arrayWords | body | skip => Unit

end Procedure

/-- A call: the procedure, what it is given, and the tokens in front of it. -/
structure Activation where
  procedure : Procedure
  args : procedure.Args
  tokens : List Token

/-- Replies to calls: what is found and the tokens that are left, or an error. -/
def Replies : Type :=
  (p : Procedure) → p.Args → List Token → Except SourceError (p.Value × List Token)

/-! ## 2. Scripts -/

/-- What a procedure does by itself: it ends, fails, or makes a call and goes on with the reply. -/
inductive Script (α : Type) : Type
  | done (a : α)
  | fail (e : SourceError)
  | call (p : Procedure) (args : p.Args) (ts : List Token) (next : p.Value × List Token → Script α)

namespace Script

variable {α β : Type}

def bind : Script α → (α → Script β) → Script β
  | done a, f => f a
  | fail e, _ => fail e
  | call p args ts next, f => call p args ts fun v => (next v).bind f

instance : Monad Script where
  pure := done
  bind := bind

/-- Makes a call. -/
def ask (p : Procedure) (args : p.Args) (ts : List Token) : Script (p.Value × List Token) :=
  call p args ts done

/-- A step that makes no call. -/
def ofExcept : Except SourceError α → Script α
  | .ok a => done a
  | .error e => fail e

instance : MonadLift (Except SourceError) Script := ⟨ofExcept⟩

/-- The outcome of a script whose calls have these replies. An error ends it. -/
def run (replies : Replies) : Script α → Except SourceError α
  | done a => .ok a
  | fail e => .error e
  | call p args ts next => replies p args ts >>= fun v => (next v).run replies

/-- The calls that a script makes with these replies, in their order. -/
def calls (replies : Replies) : Script α → List Activation
  | done _ | fail _ => []
  | call p args ts next =>
    ⟨p, args, ts⟩ ::
      match replies p args ts with
      | .ok v => (next v).calls replies
      | .error _ => []

/-! ## 3. The scripts of the procedures -/

variable [Counting]

-- Each is the function of the same name, with a call in place of every use of another function
-- and of itself.

/-- The initializer of a declarator, if there is one. -/
def optionalInitializer (ts : List Token) : Script (Unit × List Token) :=
  match take? .equals ts with
  | some ⟨_, r, _⟩ => ask .skip (TokenKind.isSeparator, 0) r
  | none => done ((), ts)

/-- The colon of a record and the base classes behind it, if there is a colon. -/
def optionalBases (stop : Location) (key : RecordKey) (sc : Scope) (ts : List Token) :
    Script (List BaseDecl × List Token) :=
  match take? .colon ts with
  | none => done ([], ts)
  | some ⟨_, r, _⟩ =>
    if key = .classKey then ask .baseClause sc r
    else fail (faultAt (place stop ts) .baseOutsideClass)

def declarations (sc : Scope) (ts : List Token) :
    Script ((List Declaration × Scope) × List Token) :=
  if ts.isEmpty then return (([], sc), [])
  else do
    let ((own, sc₁), r) ← ask .external sc ts
    let ((list, sc₂), r₁) ← ask .declarations sc₁ r
    return ((own ++ list, sc₂), r₁)

def external (stop : Location) (sc : Scope) (ts : List Token) :
    Script ((List Declaration × Scope) × List Token) :=
  match take? .semicolon ts with
  | some ⟨_, r, _⟩ => return (([], sc), r)
  | none => do
    let ((specs, sc₁), r₁) ← ask .specifiers ({}, sc) ts
    let base ← specs.resolve (place stop ts)
    match take? .semicolon r₁ with
    | some ⟨_, r₂, _⟩ => return (([⟨none, base, specs.storage, place stop ts⟩], sc₁), r₂)
    | none => ask .declaratorList (base, specs.storage, sc₁) r₁

def declaratorList (stop : Location) (base : CType) (storage : Option StorageClass) (sc : Scope)
    (ts : List Token) : Script ((List Declaration × Scope) × List Token) := do
  let ((d, sc₁), r₁) ← ask .declarator sc ts
  match d.name with
  | none => fail (faultAt (place stop ts) .nameless)
  | some name =>
    let type := d.apply base
    let sc₂ :=
      if storage = some .typeSynonym then sc₁.nameType name (.synonym .none name type) else sc₁
    let own : Declaration := ⟨some name, type, storage, place stop ts⟩
    if type.isFunction && startsWith .braceOpen r₁ then
      let (_, r₂) ← ask .body () r₁
      return (([own], sc₂), r₂)
    else
      let (_, r₂) ← optionalInitializer r₁
      match take? .comma r₂ with
      | some ⟨_, r₃, _⟩ =>
        let ((list, sc₃), r₄) ← ask .declaratorList (base, storage, sc₂) r₃
        return ((own :: list, sc₃), r₄)
      | none =>
        let ⟨_, r₃, _⟩ ← expect stop .semicolon r₂
        return (([own], sc₂), r₃)

def specifiers (stop : Location) (acc : Specifiers) (sc : Scope) (ts : List Token) :
    Script ((Specifiers × Scope) × List Token) :=
  match ts with
  | [] => return ((acc, sc), [])
  | t :: r =>
    match acc.add? sc t.kind with
    | some acc' => ask .specifiers (acc', sc) r
    | none =>
      match t.kind with
      | .keyword (.record key) => do
        let ((type, sc₁), r₁) ← ask .record (key, t.location, sc) r
        refuseSecond stop acc r₁
        ask .specifiers ({ acc with named := some type }, sc₁) r₁
      | .keyword .enumeration => do
        let ((type, sc₁), r₁) ← ask .enumeration sc r
        refuseSecond stop acc r₁
        ask .specifiers ({ acc with named := some type }, sc₁) r₁
      | _ => return ((acc, sc), t :: r)

def record (stop : Location) (key : RecordKey) (l : Location) (sc : Scope) (ts : List Token) :
    Script ((CType × Scope) × List Token) :=
  let ⟨name, r₁, _⟩ := optionalName ts
  let hasBody := startsWith .braceOpen r₁ || startsWith .colon r₁
  match tagged sc key name hasBody with
  | .error f => fail (faultAt l f)
  | .ok (id, sc₁) =>
    let sc₂ := nameClass sc₁ key name id
    if hasBody then do
      let (bases, r₂) ← optionalBases stop key sc₂ r₁
      let ⟨_, r₃, _⟩ ← expect stop .braceOpen r₂
      let ((list, sc₃), r₄) ← ask .members (key, key.access, sc₂) r₃
      let ⟨_, r₅, _⟩ ← expect stop .braceClose r₄
      let context := sc₃.context.completeRecord id list bases
      return ((.record .none id, { sc₃ with context }), r₅)
    else return ((.record .none id, sc₂), r₁)

def baseClause (stop : Location) (sc : Scope) (ts : List Token) :
    Script (List BaseDecl × List Token) := do
  let ((access, isVirtual), r₁) ← ask .baseWords () ts
  let ⟨name, r₂, _⟩ ← expectIdent stop r₁
  match sc.recordType? name with
  | none => fail (faultAt (place stop r₁) (.unknownBase name))
  | some type =>
    let base : BaseDecl := ⟨type, access.getD .priv, isVirtual⟩
    match take? .comma r₂ with
    | none => return ([base], r₂)
    | some ⟨_, r₃, _⟩ =>
      let (bases, r₄) ← ask .baseClause sc r₃
      return (base :: bases, r₄)

def baseWords (ts : List Token) : Script ((Option Access × Bool) × List Token) :=
  match ts with
  | [] => return ((none, false), [])
  | t :: r =>
    match t.kind with
    | .keyword (.access a) => do
      let ((access, isVirtual), r₁) ← ask .baseWords () r
      return ((access.or (some a), isVirtual), r₁)
    | .keyword .virtualBase => do
      let ((access, _), r₁) ← ask .baseWords () r
      return ((access, true), r₁)
    | _ => return ((none, false), t :: r)

def enumeration (sc : Scope) (ts : List Token) : Script ((CType × Scope) × List Token) := do
  let ⟨name, r₁, _⟩ := optionalName ts
  let (id, context) :=
    match name.bind sc.context.findEnum? with
    | some id => (id, sc.context)
    | none => sc.context.declareEnum name
  if startsWith .braceOpen r₁ then
    let (_, r₂) ← ask .body () r₁
    return ((.enumeration .none id, { sc with context }), r₂)
  else return ((.enumeration .none id, { sc with context }), r₁)

def members (stop : Location) (key : RecordKey) (access : Option Access) (sc : Scope)
    (ts : List Token) : Script ((List MemberDecl × Scope) × List Token) :=
  match ts with
  | [] => fail (faultAt stop .endOfFile)
  | t :: r =>
    match t.kind with
    | .mark .braceClose => return (([], sc), t :: r)
    | .keyword (.access a) => do
      let ⟨_, r₁, _⟩ ← labelColon stop key t.location r
      ask .members (key, some a, sc) r₁
    | .mark .semicolon => ask .members (key, access, sc) r
    | _ => do
      let ((specs, sc₁), r₁) ← ask .specifiers ({}, sc) (t :: r)
      let base ← specs.resolve t.location
      let ((own, sc₂), r₂) ← ask .memberGroup (base, access, sc₁) r₁
      let ⟨_, r₃, _⟩ ← expect stop .semicolon r₂
      let ((list, sc₃), r₄) ← ask .members (key, access, sc₂) r₃
      return ((own ++ list, sc₃), r₄)

def memberGroup (base : CType) (access : Option Access) (sc : Scope) (ts : List Token) :
    Script ((List MemberDecl × Scope) × List Token) :=
  if startsWith .semicolon ts then
    let own := if sc.isAnonymousRecord base then [⟨none, base, access, none⟩] else []
    return ((own, sc), ts)
  else ask .memberList (base, access, sc) ts

def memberList (stop : Location) (base : CType) (access : Option Access) (sc : Scope)
    (ts : List Token) : Script ((List MemberDecl × Scope) × List Token) := do
  let ((d, sc₁), r₁) ← ask .memberDeclarator sc ts
  let ⟨width, r₂, _⟩ ← optionalWidth stop r₁
  let own : MemberDecl := ⟨d.name, d.apply base, access, width⟩
  match take? .comma r₂ with
  | none => return (([own], sc₁), r₂)
  | some ⟨_, r₃, _⟩ =>
    let ((list, sc₂), r₄) ← ask .memberList (base, access, sc₁) r₃
    return ((own :: list, sc₂), r₄)

def memberDeclarator (sc : Scope) (ts : List Token) : Script ((Declarator × Scope) × List Token) :=
  if startsWith .colon ts then return ((⟨none, []⟩, sc), ts) else ask .declarator sc ts

def declarator (sc : Scope) (ts : List Token) : Script ((Declarator × Scope) × List Token) := do
  let (pointers, r₁) ← ask .pointers () ts
  let ((inner, sc₁), r₂) ← ask .core sc r₁
  let ((suffixes, sc₂), r₃) ← ask .suffixes sc₁ r₂
  return ((⟨inner.name, inner.derivations ++ suffixes ++ pointers.reverse⟩, sc₂), r₃)

def pointers (ts : List Token) : Script (List Derivation × List Token) :=
  match takePointer? ts with
  | none => return ([], ts)
  | some ⟨kind, r₁, _⟩ => do
    let (quals, r₂) ← ask .qualifiers () r₁
    let (derived, r₃) ← ask .pointers () r₂
    return (.pointer kind quals :: derived, r₃)

def qualifiers (ts : List Token) : Script (Qualifiers × List Token) :=
  match ts with
  | [] => return (.none, [])
  | t :: r =>
    match t.kind with
    | .keyword (.qualifier q) => do
      let (quals, r₁) ← ask .qualifiers () r
      return (q.alone.union quals, r₁)
    | _ => return (.none, t :: r)

def core (stop : Location) (sc : Scope) (ts : List Token) :
    Script ((Declarator × Scope) × List Token) :=
  match takeNested? sc ts with
  | some ⟨_, r₁, _⟩ => do
    let (v, r₂) ← ask .declarator sc r₁
    let ⟨_, r₃, _⟩ ← expect stop .parenClose r₂
    return (v, r₃)
  | none =>
    let ⟨name, r₁, _⟩ := optionalName ts
    return ((⟨name, []⟩, sc), r₁)

def suffixes (sc : Scope) (ts : List Token) : Script ((List Derivation × Scope) × List Token) :=
  match take? .bracketOpen ts with
  | some ⟨_, r₁, _⟩ => do
    let (size, r₂) ← ask .arraySuffix () r₁
    let ((derived, sc₁), r₃) ← ask .suffixes sc r₂
    return ((.array size :: derived, sc₁), r₃)
  | none =>
    match take? .parenOpen ts with
    | some ⟨_, r₁, _⟩ => do
      let ((params, variadic, sc₁), r₂) ← ask .functionSuffix sc r₁
      let ((derived, sc₂), r₃) ← ask .suffixes sc₁ r₂
      return ((.function params variadic :: derived, sc₂), r₃)
    | none => return (([], sc), ts)

def arraySuffix (stop : Location) (ts : List Token) : Script (ArraySize × List Token) := do
  let (_, inner) ← ask .arrayWords () ts
  match closedSize? inner with
  | some ⟨size, r, _⟩ => return (size, r)
  | none =>
    let (_, r₁) ← ask .skip (TokenKind.isMark .bracketClose, 0) inner
    let ⟨_, r₂, _⟩ ← expect stop .bracketClose r₁
    return (.unknown, r₂)

def arrayWords (ts : List Token) : Script (Unit × List Token) :=
  match ts with
  | [] => return ((), [])
  | t :: r => if isArrayWord t.kind then ask .arrayWords () r else return ((), t :: r)

def functionSuffix (stop : Location) (sc : Scope) (ts : List Token) :
    Script ((List CType × Bool × Scope) × List Token) :=
  match takeNoParameters? ts with
  | some ⟨_, r₁, _⟩ => return (([], false, sc), r₁)
  | none => do
    let (v, r₁) ← ask .parameters sc ts
    let ⟨_, r₂, _⟩ ← expect stop .parenClose r₁
    return (v, r₂)

def parameters (stop : Location) (sc : Scope) (ts : List Token) :
    Script ((List CType × Bool × Scope) × List Token) :=
  match take? .ellipsis ts with
  | some ⟨_, r₁, _⟩ => return (([], true, sc), r₁)
  | none => do
    let ((specs, sc₁), r₁) ← ask .specifiers ({}, sc) ts
    let base ← specs.resolve (place stop ts)
    let ((d, sc₂), r₂) ← ask .parameterDeclarator sc₁ r₁
    let type := d.apply base
    match take? .comma r₂ with
    | none => return (([type], false, sc₂), r₂)
    | some ⟨_, r₃, _⟩ =>
      let ((types, variadic, sc₃), r₄) ← ask .parameters sc₂ r₃
      return ((type :: types, variadic, sc₃), r₄)

def parameterDeclarator (sc : Scope) (ts : List Token) :
    Script ((Declarator × Scope) × List Token) :=
  if startsWith .comma ts || startsWith .parenClose ts then return ((⟨none, []⟩, sc), ts)
  else ask .declarator sc ts

def body (stop : Location) (ts : List Token) : Script (Unit × List Token) := do
  let ⟨_, r₁, _⟩ ← expect stop .braceOpen ts
  let (_, r₂) ← ask .skip (TokenKind.isMark .braceClose, 0) r₁
  let ⟨_, r₃, _⟩ ← expect stop .braceClose r₂
  return ((), r₃)

def skip (stop : Location) (ends : TokenKind → Bool) (depth : Nat) (ts : List Token) :
    Script (Unit × List Token) :=
  match ts with
  | [] => fail (faultAt stop .endOfFile)
  | t :: r =>
    if depth = 0 ∧ ends t.kind = true then return ((), t :: r)
    else ask .skip (ends, depthBehind depth t.kind) r

end Script

/-- **What each procedure does.** -/
def script [Counting] (stop : Location) :
    (p : Procedure) → p.Args → List Token → Script (p.Value × List Token)
  | .declarations, sc, ts => .declarations sc ts
  | .external, sc, ts => .external stop sc ts
  | .declaratorList, (base, storage, sc), ts => .declaratorList stop base storage sc ts
  | .specifiers, (acc, sc), ts => .specifiers stop acc sc ts
  | .record, (key, l, sc), ts => .record stop key l sc ts
  | .baseClause, sc, ts => .baseClause stop sc ts
  | .baseWords, _, ts => .baseWords ts
  | .enumeration, sc, ts => .enumeration sc ts
  | .members, (key, access, sc), ts => .members stop key access sc ts
  | .memberGroup, (base, access, sc), ts => .memberGroup base access sc ts
  | .memberList, (base, access, sc), ts => .memberList stop base access sc ts
  | .memberDeclarator, sc, ts => .memberDeclarator sc ts
  | .declarator, sc, ts => .declarator sc ts
  | .pointers, _, ts => .pointers ts
  | .qualifiers, _, ts => .qualifiers ts
  | .core, sc, ts => .core stop sc ts
  | .suffixes, sc, ts => .suffixes sc ts
  | .arraySuffix, _, ts => .arraySuffix stop ts
  | .arrayWords, _, ts => .arrayWords ts
  | .functionSuffix, sc, ts => .functionSuffix stop sc ts
  | .parameters, sc, ts => .parameters stop sc ts
  | .parameterDeclarator, sc, ts => .parameterDeclarator sc ts
  | .body, _, ts => .body stop ts
  | .skip, (ends, depth), ts => .skip stop ends depth ts

end TypeLedger
