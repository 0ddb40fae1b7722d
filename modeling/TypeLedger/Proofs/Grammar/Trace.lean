import TypeLedger.Proofs.Grammar.Tidy
import TypeLedger.Source.Declaration

/-!
# The bodies that reading completes

* A `Trace` lists the bodies that have been read, each with those that stand inside it. There is one
  function for each part of the grammar that may meet a body, along the same recursion: it takes
  what the parts in front of a place have come to, and goes on behind them.
* `Context.Runs`: a trace leads from one context to another. A body is opened while its record is
  incomplete, then those inside it are read, and then it completes the record.
* `runs_parseSource`: the trace of a source leads to the context that the source leaves.
-/

namespace TypeLedger

/-! ## 1. Traces -/

/-- The bodies that have been read, in the order in which they begin: the record that each
completes, the bodies inside it, and what it says of the record. -/
inductive Trace
  | done
  | body (id : RecordId) (inside : Trace) (members : List MemberDecl) (bases : List BaseDecl)
    (rest : Trace)
deriving DecidableEq, Repr

namespace Trace

/-- One trace behind another. -/
def append : Trace → Trace → Trace
  | done, t => t
  | body id inside members bases rest, t => body id inside members bases (rest.append t)

instance : Append Trace := ⟨append⟩

@[simp] theorem done_append (t : Trace) : done ++ t = t := rfl

@[simp] theorem body_append (id : RecordId) (inside : Trace) (ms : List MemberDecl)
    (bs : List BaseDecl) (rest t : Trace) :
    body id inside ms bs rest ++ t = body id inside ms bs (rest ++ t) := rfl

@[simp] theorem append_done (t : Trace) : t ++ done = t := by
  induction t with
  | done => rfl
  | body id inside ms bs rest _ ih => rw [body_append, ih]

/-- The trace of what follows a step; nothing follows a fault. -/
def behind {n : Nat} {α : Type} (e : Except SourceError (Step n α)) (f : Step n α → Trace) :
    Trace :=
  match e with
  | .ok s => f s
  | .error _ => done

end Trace

/-! ## 2. The trace of each part of the grammar -/

mutual

def specifiersTrace (stop : Location) (acc : Specifiers) (sc : Scope) (ts : List Token) : Trace :=
  match ts with
  | [] => .done
  | t :: r =>
    match acc.add? sc t.kind with
    | some acc' => specifiersTrace stop acc' sc r
    | none =>
      match t.kind with
      | .keyword (.record key) =>
        recordTrace stop key sc r ++
          .behind (recordSpecifier stop key t.location sc r) fun ⟨(type, sc₁), r₁, _⟩ =>
            specifiersTrace stop { acc with named := some type } sc₁ r₁
      | .keyword .enumeration =>
        .behind (enumSpecifier stop sc r) fun ⟨(type, sc₁), r₁, _⟩ =>
          specifiersTrace stop { acc with named := some type } sc₁ r₁
      | _ => .done
termination_by (ts.length, 0)

/-- The body of a record comes into the trace here, with those inside it. -/
def recordTrace (stop : Location) (key : RecordKey) (sc : Scope) (ts : List Token) : Trace :=
  let ⟨name, r₁, _⟩ := optionalName ts
  let hasBody := startsWith .braceOpen r₁ || startsWith .colon r₁
  match tagged sc key name hasBody with
  | .error _ => .done
  | .ok (id, sc₁) =>
    let sc₂ := nameClass sc₁ key name id
    if hasBody then
      .behind (optionalBases stop key sc₂ r₁) fun ⟨bases, r₂, _⟩ =>
        .behind (expect stop .braceOpen r₂) fun ⟨_, r₃, _⟩ =>
          .behind (members stop key key.access sc₂ r₃) fun ⟨(list, _), _, _⟩ =>
            .body id (membersTrace stop key key.access sc₂ r₃) list bases .done
    else .done
termination_by (ts.length, 0)

def membersTrace (stop : Location) (key : RecordKey) (access : Option Access) (sc : Scope)
    (ts : List Token) : Trace :=
  match ts with
  | [] => .done
  | t :: r =>
    match t.kind with
    | .mark .braceClose => .done
    | .keyword (.access a) =>
      .behind (labelColon stop key t.location r) fun ⟨_, r₁, _⟩ =>
        membersTrace stop key (some a) sc r₁
    | .mark .semicolon => membersTrace stop key access sc r
    | _ =>
      specifiersTrace stop {} sc (t :: r) ++
        .behind (specifiers stop {} sc (t :: r)) fun ⟨(specs, sc₁), r₁, _⟩ =>
          match specs.resolve t.location with
          | .error _ => .done
          | .ok base =>
            memberGroupTrace stop base access sc₁ r₁ ++
              .behind (memberGroup stop base access sc₁ r₁) fun ⟨(_, sc₂), r₂, _⟩ =>
                .behind (expect stop .semicolon r₂) fun ⟨_, r₃, _⟩ =>
                  membersTrace stop key access sc₂ r₃
termination_by (ts.length, 5)
decreasing_by all_goals simp only [Prod.lex_def, List.length_cons, true_and] at *; omega

def memberGroupTrace (stop : Location) (base : CType) (access : Option Access) (sc : Scope)
    (ts : List Token) : Trace :=
  if startsWith .semicolon ts then .done else memberListTrace stop base access sc ts
termination_by (ts.length, 4)

def memberListTrace (stop : Location) (base : CType) (access : Option Access) (sc : Scope)
    (ts : List Token) : Trace :=
  memberDeclaratorTrace stop sc ts ++
    .behind (memberDeclarator stop sc ts) fun ⟨(_, sc₁), r₁, _⟩ =>
      .behind (optionalWidth stop r₁) fun ⟨_, r₂, _⟩ =>
        match take? .comma r₂ with
        | none => .done
        | some ⟨_, r₃, _⟩ => memberListTrace stop base access sc₁ r₃
termination_by (ts.length, 3)

def memberDeclaratorTrace (stop : Location) (sc : Scope) (ts : List Token) : Trace :=
  if startsWith .colon ts then .done else declaratorTrace stop sc ts
termination_by (ts.length, 2)

def declaratorTrace (stop : Location) (sc : Scope) (ts : List Token) : Trace :=
  let ⟨_, r₁, _⟩ := pointerRun ts
  coreTrace stop sc r₁ ++
    .behind (declaratorCore stop sc r₁) fun ⟨(_, sc₁), r₂, _⟩ => suffixTrace stop sc₁ r₂
termination_by (ts.length, 1)
decreasing_by all_goals simp only [Prod.lex_def]; omega

def coreTrace (stop : Location) (sc : Scope) (ts : List Token) : Trace :=
  match takeNested? sc ts with
  | some ⟨_, r₁, _⟩ => declaratorTrace stop sc r₁
  | none => .done
termination_by (ts.length, 0)

def suffixTrace (stop : Location) (sc : Scope) (ts : List Token) : Trace :=
  match take? .bracketOpen ts with
  | some ⟨_, r₁, _⟩ =>
    .behind (arraySuffix stop r₁) fun ⟨_, r₂, _⟩ => suffixTrace stop sc r₂
  | none =>
    match take? .parenOpen ts with
    | some ⟨_, r₁, _⟩ =>
      functionTrace stop sc r₁ ++
        .behind (functionSuffix stop sc r₁) fun ⟨(_, _, sc₁), r₂, _⟩ => suffixTrace stop sc₁ r₂
    | none => .done
termination_by (ts.length, 0)

def functionTrace (stop : Location) (sc : Scope) (ts : List Token) : Trace :=
  match takeNoParameters? ts with
  | some _ => .done
  | none => parametersTrace stop sc ts
termination_by (ts.length, 4)

def parametersTrace (stop : Location) (sc : Scope) (ts : List Token) : Trace :=
  match take? .ellipsis ts with
  | some _ => .done
  | none =>
    specifiersTrace stop {} sc ts ++
      .behind (specifiers stop {} sc ts) fun ⟨(_, sc₁), r₁, _⟩ =>
        parameterDeclaratorTrace stop sc₁ r₁ ++
          .behind (parameterDeclarator stop sc₁ r₁) fun ⟨(_, sc₂), r₂, _⟩ =>
            match take? .comma r₂ with
            | none => .done
            | some ⟨_, r₃, _⟩ => parametersTrace stop sc₂ r₃
termination_by (ts.length, 3)
decreasing_by all_goals simp only [Prod.lex_def, true_and]; omega

def parameterDeclaratorTrace (stop : Location) (sc : Scope) (ts : List Token) : Trace :=
  if startsWith .comma ts || startsWith .parenClose ts then .done else declaratorTrace stop sc ts
termination_by (ts.length, 2)

end

def declaratorListTrace (stop : Location) (base : CType) (storage : Option StorageClass)
    (sc : Scope) (ts : List Token) : Trace :=
  declaratorTrace stop sc ts ++
    .behind (declarator stop sc ts) fun ⟨(d, sc₁), r₁, _⟩ =>
      match d.name with
      | none => .done
      | some name =>
        let type := d.apply base
        let sc₂ :=
          if storage = some .typeSynonym then sc₁.nameType name (.synonym .none name type) else sc₁
        if type.isFunction && startsWith .braceOpen r₁ then .done
        else
          .behind (skipInitializer stop r₁) fun ⟨_, r₂, _⟩ =>
            match take? .comma r₂ with
            | some ⟨_, r₃, _⟩ => declaratorListTrace stop base storage sc₂ r₃
            | none => .done
termination_by ts.length

def externalTrace (stop : Location) (sc : Scope) (ts : List Token) : Trace :=
  match take? .semicolon ts with
  | some _ => .done
  | none =>
    specifiersTrace stop {} sc ts ++
      .behind (specifiers stop {} sc ts) fun ⟨(specs, sc₁), r₁, _⟩ =>
        match specs.resolve (place stop ts) with
        | .error _ => .done
        | .ok base =>
          match take? .semicolon r₁ with
          | some _ => .done
          | none => declaratorListTrace stop base specs.storage sc₁ r₁

def declarationsTrace (stop : Location) (sc : Scope) (ts : List Token) : Trace :=
  if ts.isEmpty then .done
  else
    externalTrace stop sc ts ++
      .behind (externalDeclaration stop sc ts) fun ⟨(_, sc₁), r, _⟩ => declarationsTrace stop sc₁ r
termination_by ts.length

/-- The trace of a source text, with the records and enumerations of `ctx` already declared. -/
def sourceTrace (source : String) (ctx : Context := {}) : Trace :=
  match tokenize source.toUTF8.toList with
  | .ok (ts, stop) => declarationsTrace stop { context := ctx } ts
  | .error _ => .done

/-! ## 3. Runs -/

namespace Context

/-- The record is declared, and no body of it has been completed. -/
def Incomplete (ctx : Context) (id : RecordId) : Prop :=
  ∃ d, ctx.record? id = some d ∧ d.isComplete = false

/-- A record or an enumeration is declared. -/
inductive Declares : Context → Context → Prop
  | record (ctx : Context) (key : RecordKey) (name : Option String) :
    Declares ctx (ctx.declareRecord key name).2
  | enumeration (ctx : Context) (name : Option String) : Declares ctx (ctx.declareEnum name).2

/-- A trace leads from one context to another. Records and enumerations are declared at any time. A
body begins while its record is incomplete, and completes it after the bodies inside. -/
inductive Runs : Context → Trace → Context → Prop
  | done (ctx : Context) : Runs ctx .done ctx
  | declares {ctx ctx₁ ctx' : Context} {tr : Trace} (hd : ctx.Declares ctx₁)
    (hr : Runs ctx₁ tr ctx') : Runs ctx tr ctx'
  | body {ctx ctx₁ ctx' : Context} {id : RecordId} {inside rest : Trace} {ms : List MemberDecl}
    {bs : List BaseDecl} (hi : ctx.Incomplete id) (hin : Runs ctx inside ctx₁)
    (hr : Runs (ctx₁.completeRecord id ms bs) rest ctx') :
    Runs ctx (.body id inside ms bs rest) ctx'

theorem Runs.append {ctx₁ ctx₂ ctx₃ : Context} {t t' : Trace} (h : Runs ctx₁ t ctx₂)
    (h' : Runs ctx₂ t' ctx₃) : Runs ctx₁ (t ++ t') ctx₃ := by
  induction h with
  | done => exact h'
  | declares hd _ ih => exact .declares hd (ih h')
  | body hi hin _ _ ih => exact .body hi hin (ih h')

end Context

/-! ## 4. Steps -/

section Steps

variable {α β γ : Type} {m n : Nat} {sc : Scope} {scope : β → Scope} {t : Trace}

/-- If the step succeeds, the trace leads (`Runs`) to the context of the scope that it hands on. -/
def Follows (sc : Scope) (scope : α → Scope) (e : Except SourceError (Step n α)) (t : Trace) :
    Prop :=
  ∀ s, e = .ok s → sc.context.Runs t (scope s.value).context

theorem follows_ok {s : Step n β} (h : sc.context.Runs t (scope s.value).context) :
    Follows sc scope (.ok s) t := by
  intro s' hs
  cases hs
  exact h

theorem follows_error {x : SourceError} :
    Follows sc scope (.error x : Except SourceError (Step n β)) t := by
  intro s hs
  cases hs

/-- A step with a trace, and what `Follows` it. -/
theorem follows_bind {e : Except SourceError (Step m α)}
    {f : Step m α → Except SourceError (Step n β)} {k : Step m α → Trace} {inner : α → Scope}
    (he : Follows sc inner e t)
    (hf : ∀ v r hlt, Follows (inner v) scope (f ⟨v, r, hlt⟩) (k ⟨v, r, hlt⟩)) :
    Follows sc scope (e >>= f) (t ++ .behind e k) := by
  intro s hs
  cases e with
  | error x => cases hs
  | ok s₁ => exact (he s₁ rfl).append (hf s₁.value s₁.rest s₁.short s hs)

/-- A step with a trace, behind which there is no more of it. -/
theorem follows_end {e : Except SourceError (Step m α)}
    {f : Step m α → Except SourceError (Step n β)} {inner : α → Scope} (he : Follows sc inner e t)
    (hf : ∀ v r hlt, Follows (inner v) scope (f ⟨v, r, hlt⟩) .done) :
    Follows sc scope (e >>= f) t := by
  intro s hs
  cases e with
  | error x => cases hs
  | ok s₁ =>
    rw [← Trace.append_done t]
    exact (he s₁ rfl).append (hf s₁.value s₁.rest s₁.short s hs)

/-- A step without a trace, and what `Follows` it. -/
theorem follows_silent {e : Except SourceError (Step m α)}
    {f : Step m α → Except SourceError (Step n β)} {k : Step m α → Trace} {inner : α → Scope}
    (he : Follows sc inner e .done)
    (hf : ∀ v r hlt, Follows (inner v) scope (f ⟨v, r, hlt⟩) (k ⟨v, r, hlt⟩)) :
    Follows sc scope (e >>= f) (.behind e k) := by
  rw [← Trace.done_append (.behind e k)]
  exact follows_bind he hf

/-- A step that leaves the scope alone, and what `Follows` it. -/
theorem follows_step {e : Except SourceError (Step m α)}
    {f : Step m α → Except SourceError (Step n β)} {k : Step m α → Trace}
    (hf : ∀ v r hlt, e = .ok ⟨v, r, hlt⟩ → Follows sc scope (f ⟨v, r, hlt⟩) (k ⟨v, r, hlt⟩)) :
    Follows sc scope (e >>= f) (.behind e k) := by
  intro s hs
  cases e with
  | error x => cases hs
  | ok s₁ => exact hf s₁.value s₁.rest s₁.short rfl s hs

/-- Declarations in front of a step leave no trace. -/
theorem Follows.after {sc₁ : Scope} {e : Except SourceError (Step n β)} (h : Follows sc₁ scope e t)
    (hr : sc.context.Runs .done sc₁.context) : Follows sc scope e t :=
  fun s hs => hr.append (h s hs)

/-- The members of a body, behind which it completes its record. -/
theorem follows_body {e : Except SourceError (Step m (List MemberDecl × Scope))}
    {f : Step m (List MemberDecl × Scope) → Except SourceError (Step n β)} {id : RecordId}
    {bs : List BaseDecl} (hi : sc.context.Incomplete id) (he : Follows sc Prod.snd e t)
    (hf : ∀ ms sc' r hlt, Follows { sc' with context := sc'.context.completeRecord id ms bs } scope
      (f ⟨(ms, sc'), r, hlt⟩) .done) :
    Follows sc scope (e >>= f) (.behind e fun s => .body id t s.value.1 bs .done) := by
  intro s hs
  cases e with
  | error x => cases hs
  | ok s₁ => exact .body hi (he s₁ rfl) (hf s₁.value.1 s₁.value.2 s₁.rest s₁.short s hs)

/-- A step or a check that leaves the scope and the trace alone. -/
theorem follows_check {e : Except SourceError γ} {f : γ → Except SourceError (Step n β)}
    (hf : ∀ c, e = .ok c → Follows sc scope (f c) t) : Follows sc scope (e >>= f) t := by
  intro s hs
  cases e with
  | error x => cases hs
  | ok c => exact hf c rfl s hs

end Steps

/-! ## 5. The grammar -/

theorem context_nameClass (sc : Scope) (key : RecordKey) (name : Option String) (id : RecordId) :
    (nameClass sc key name id).context = sc.context := by
  unfold nameClass
  split <;> rfl

/-- A record that a keyword and a name mean is there already, or is declared. -/
theorem runs_tagged {sc sc₁ : Scope} {key : RecordKey} {name : Option String} {hasBody : Bool}
    {id : RecordId} (h : tagged sc key name hasBody = .ok (id, sc₁)) :
    sc.context.Runs .done sc₁.context := by
  unfold tagged at h
  split at h
  · cases h
    exact .declares (.record _ _ _) (.done _)
  · split at h
    · split at h
      · cases h
      · cases h
        exact .done _
    · cases h
      exact .declares (.record _ _ _) (.done _)

/-- **A body is only opened for a record that has none yet** (`Incomplete`). -/
theorem incomplete_tagged {sc sc₁ : Scope} {key : RecordKey} {name : Option String}
    {id : RecordId} (h : tagged sc key name true = .ok (id, sc₁)) :
    sc₁.context.Incomplete id := by
  have hnew : ∀ name, (sc.context.declareRecord key name).2.Incomplete
      (sc.context.declareRecord key name).1 := by
    intro name
    refine ⟨⟨key, name, none, []⟩, ?_, rfl⟩
    rw [Context.record?_declareRecord]
    exact if_pos rfl
  unfold tagged at h
  split at h
  · cases h
    exact hnew none
  · split at h
    · rename_i i hi
      split at h
      · cases h
      · rename_i hc
        cases h
        obtain ⟨d, hd, -⟩ := Context.findRecord?_spec hi
        refine ⟨d, hd, ?_⟩
        rw [hd] at hc
        simpa using hc
    · cases h
      exact hnew _

theorem follows_enumSpecifier (stop : Location) (sc : Scope) (ts : List Token) :
    Follows sc Prod.snd (enumSpecifier stop sc ts) .done := by
  unfold enumSpecifier
  dsimp only
  split
  on_goal 1 => refine follows_check fun _ _ => ?_
  all_goals
    refine follows_ok ?_
    split
    · exact .done _
    · exact .declares (.enumeration _ _) (.done _)

mutual

theorem follows_specifiers (stop : Location) (acc : Specifiers) (sc : Scope) (ts : List Token) :
    Follows sc Prod.snd (specifiers stop acc sc ts) (specifiersTrace stop acc sc ts) := by
  cases ts with
  | nil =>
    unfold specifiers specifiersTrace
    exact follows_ok (.done _)
  | cons t r =>
    unfold specifiers
    cases hadd : acc.add? sc t.kind with
    | some acc' =>
      unfold specifiersTrace
      simp only [hadd]
      exact follows_end (follows_specifiers stop acc' sc r) fun v r₁ _ => follows_ok (.done _)
    | none =>
      dsimp only
      split
      · rename_i key hkey
        unfold specifiersTrace
        simp only [hkey]
        refine follows_bind (follows_recordSpecifier stop key t.location sc r)
          fun (type, sc₁) r₁ hlt => ?_
        refine follows_check fun _ _ => ?_
        exact follows_end (follows_specifiers stop { acc with named := some type } sc₁ r₁)
          fun v r₂ _ => follows_ok (.done _)
      · rename_i hkey
        unfold specifiersTrace
        simp only [hkey]
        refine follows_silent (follows_enumSpecifier stop sc r) fun (type, sc₁) r₁ hlt => ?_
        refine follows_check fun _ _ => ?_
        exact follows_end (follows_specifiers stop { acc with named := some type } sc₁ r₁)
          fun v r₂ _ => follows_ok (.done _)
      · -- neither keyword opens a specifier, so the trace stops here as well
        unfold specifiersTrace
        simp only [hadd]
        exact follows_ok (.done _)
termination_by (ts.length, 0)

theorem follows_recordSpecifier (stop : Location) (key : RecordKey) (l : Location) (sc : Scope)
    (ts : List Token) :
    Follows sc Prod.snd (recordSpecifier stop key l sc ts) (recordTrace stop key sc ts) := by
  have h₁ := (optionalName ts).short
  unfold recordSpecifier recordTrace
  dsimp only
  cases htag : tagged sc key (optionalName ts).value
      (startsWith .braceOpen (optionalName ts).rest ||
        startsWith .colon (optionalName ts).rest) with
  | error f => exact follows_error
  | ok v =>
    obtain ⟨id, sc₁⟩ := v
    have hopen := runs_tagged htag
    rw [← context_nameClass sc₁ key (optionalName ts).value id] at hopen
    dsimp only
    split
    · rename_i hbody
      rw [hbody] at htag
      have hi := incomplete_tagged htag
      rw [← context_nameClass sc₁ key (optionalName ts).value id] at hi
      refine Follows.after (follows_step fun bases r₂ h₂ _ => ?_) hopen
      refine follows_step fun _ r₃ h₃ _ => ?_
      have hlt : r₃.length < r₂.length := h₃
      refine follows_body hi (follows_members stop key key.access _ r₃) fun ms sc₃ r₄ _ => ?_
      exact follows_check fun _ _ => follows_ok (.done _)
    · exact follows_ok hopen
termination_by (ts.length, 0)

theorem follows_members (stop : Location) (key : RecordKey) (access : Option Access) (sc : Scope)
    (ts : List Token) :
    Follows sc Prod.snd (members stop key access sc ts) (membersTrace stop key access sc ts) := by
  cases ts with
  | nil =>
    unfold members
    exact follows_error
  | cons t r =>
    unfold members
    split
    · rename_i hk
      unfold membersTrace
      simp only [hk]
      exact follows_ok (.done _)
    · rename_i a hk
      unfold membersTrace
      simp only [hk]
      refine follows_step fun _ r₁ hlt _ => ?_
      exact follows_end (follows_members stop key (some a) sc r₁) fun v r₂ _ => follows_ok (.done _)
    · rename_i hk
      unfold membersTrace
      simp only [hk]
      exact follows_end (follows_members stop key access sc r) fun v r₁ _ => follows_ok (.done _)
    · rename_i hclose hlabel hsemicolon
      unfold membersTrace
      split
      · exact absurd ‹_› hclose
      · exact absurd ‹_› (hlabel _)
      · exact absurd ‹_› hsemicolon
      · refine follows_bind (follows_specifiers stop {} sc (t :: r)) fun (specs, sc₁) r₁ h₁ => ?_
        dsimp only
        cases hbase : specs.resolve t.location with
        | error x => exact follows_error
        | ok base =>
          refine follows_bind (follows_memberGroup stop base access sc₁ r₁)
            fun (own, sc₂) r₂ h₂ => ?_
          refine follows_step fun _ r₃ h₃ _ => ?_
          have hlt : r₃.length < r₂.length := h₃
          exact follows_end (follows_members stop key access sc₂ r₃)
            fun v r₄ _ => follows_ok (.done _)
termination_by (ts.length, 5)
decreasing_by
  all_goals
    subst_vars
    simp only [Prod.lex_def, List.length_cons, true_and] at *
    omega

theorem follows_memberGroup (stop : Location) (base : CType) (access : Option Access) (sc : Scope)
    (ts : List Token) :
    Follows sc Prod.snd (memberGroup stop base access sc ts)
      (memberGroupTrace stop base access sc ts) := by
  unfold memberGroup memberGroupTrace
  split
  · exact follows_ok (.done _)
  · exact follows_memberList stop base access sc ts
termination_by (ts.length, 4)

theorem follows_memberList (stop : Location) (base : CType) (access : Option Access) (sc : Scope)
    (ts : List Token) :
    Follows sc Prod.snd (memberList stop base access sc ts)
      (memberListTrace stop base access sc ts) := by
  unfold memberList memberListTrace
  refine follows_bind (follows_memberDeclarator stop sc ts) fun (d, sc₁) r₁ h₁ => ?_
  refine follows_step fun width r₂ h₂ _ => ?_
  dsimp only
  cases hc : take? .comma r₂ with
  | none => exact follows_ok (.done _)
  | some s =>
    have h₃ := s.short
    exact follows_end (follows_memberList stop base access sc₁ s.rest)
      fun v r₄ _ => follows_ok (.done _)
termination_by (ts.length, 3)

theorem follows_memberDeclarator (stop : Location) (sc : Scope) (ts : List Token) :
    Follows sc Prod.snd (memberDeclarator stop sc ts) (memberDeclaratorTrace stop sc ts) := by
  unfold memberDeclarator memberDeclaratorTrace
  split
  · exact follows_ok (.done _)
  · exact follows_declarator stop sc ts
termination_by (ts.length, 2)

theorem follows_declarator (stop : Location) (sc : Scope) (ts : List Token) :
    Follows sc Prod.snd (declarator stop sc ts) (declaratorTrace stop sc ts) := by
  have h₁ := (pointerRun ts).short
  unfold declarator declaratorTrace
  refine follows_bind (follows_declaratorCore stop sc (pointerRun ts).rest)
    fun (inner, sc₁) r₂ h₂ => ?_
  exact follows_end (follows_suffixRun stop sc₁ r₂) fun v r₃ _ => follows_ok (.done _)
termination_by (ts.length, 1)
decreasing_by all_goals simp only [Prod.lex_def]; omega

theorem follows_declaratorCore (stop : Location) (sc : Scope) (ts : List Token) :
    Follows sc Prod.snd (declaratorCore stop sc ts) (coreTrace stop sc ts) := by
  unfold declaratorCore coreTrace
  cases hn : takeNested? sc ts with
  | none => exact follows_ok (.done _)
  | some s =>
    have h₁ := s.short
    refine follows_end (follows_declarator stop sc s.rest) fun v r₂ _ => ?_
    exact follows_check fun _ _ => follows_ok (.done _)
termination_by (ts.length, 0)

theorem follows_suffixRun (stop : Location) (sc : Scope) (ts : List Token) :
    Follows sc Prod.snd (suffixRun stop sc ts) (suffixTrace stop sc ts) := by
  unfold suffixRun suffixTrace
  cases hb : take? .bracketOpen ts with
  | some s =>
    have h₁ := s.short
    refine follows_step fun size r₂ h₂ _ => ?_
    exact follows_end (follows_suffixRun stop sc r₂) fun v r₃ _ => follows_ok (.done _)
  | none =>
    dsimp only
    cases hp : take? .parenOpen ts with
    | none => exact follows_ok (.done _)
    | some s =>
      have h₁ := s.short
      refine follows_bind (follows_functionSuffix stop sc s.rest)
        fun (params, variadic, sc₁) r₂ h₂ => ?_
      exact follows_end (follows_suffixRun stop sc₁ r₂) fun v r₃ _ => follows_ok (.done _)
termination_by (ts.length, 0)

theorem follows_functionSuffix (stop : Location) (sc : Scope) (ts : List Token) :
    Follows sc (fun v => v.2.2) (functionSuffix stop sc ts) (functionTrace stop sc ts) := by
  unfold functionSuffix functionTrace
  cases hn : takeNoParameters? ts with
  | some s => exact follows_ok (.done _)
  | none =>
    refine follows_end (follows_parameters stop sc ts) fun v r₁ _ => ?_
    exact follows_check fun _ _ => follows_ok (.done _)
termination_by (ts.length, 4)

theorem follows_parameters (stop : Location) (sc : Scope) (ts : List Token) :
    Follows sc (fun v => v.2.2) (parameters stop sc ts) (parametersTrace stop sc ts) := by
  unfold parameters parametersTrace
  cases he : take? .ellipsis ts with
  | some s => exact follows_ok (.done _)
  | none =>
    refine follows_bind (follows_specifiers stop {} sc ts) fun (specs, sc₁) r₁ h₁ => ?_
    refine follows_check fun base _ => ?_
    refine follows_bind (follows_parameterDeclarator stop sc₁ r₁) fun (d, sc₂) r₂ h₂ => ?_
    dsimp only
    cases hc : take? .comma r₂ with
    | none => exact follows_ok (.done _)
    | some s =>
      have h₃ := s.short
      exact follows_end (follows_parameters stop sc₂ s.rest) fun v r₄ _ => follows_ok (.done _)
termination_by (ts.length, 3)
decreasing_by all_goals simp only [Prod.lex_def, true_and]; omega

theorem follows_parameterDeclarator (stop : Location) (sc : Scope) (ts : List Token) :
    Follows sc Prod.snd (parameterDeclarator stop sc ts) (parameterDeclaratorTrace stop sc ts) := by
  unfold parameterDeclarator parameterDeclaratorTrace
  split
  · exact follows_ok (.done _)
  · exact follows_declarator stop sc ts
termination_by (ts.length, 2)

end

/-! ## 6. Source texts -/

theorem follows_declaratorList (stop : Location) (base : CType) (storage : Option StorageClass)
    (sc : Scope) (ts : List Token) :
    Follows sc Prod.snd (declaratorList stop base storage sc ts)
      (declaratorListTrace stop base storage sc ts) := by
  unfold declaratorList declaratorListTrace
  refine follows_bind (follows_declarator stop sc ts) fun (d, sc₁) r₁ h₁ => ?_
  dsimp only
  cases hname : d.name with
  | none => exact follows_error
  | some name =>
    dsimp only
    -- a type name leaves the context alone
    have hnamed : sc₁.context.Runs .done (if storage = some .typeSynonym then
        sc₁.nameType name (.synonym .none name (d.apply base)) else sc₁).context := by
      split <;> exact .done _
    refine Follows.after ?_ hnamed
    generalize (if storage = some .typeSynonym then
      sc₁.nameType name (.synonym .none name (d.apply base)) else sc₁) = sc₂
    split
    · exact follows_check fun _ _ => follows_ok (.done _)
    · refine follows_step fun _ r₂ h₂ _ => ?_
      dsimp only
      cases hc : take? .comma r₂ with
      | none => exact follows_check fun _ _ => follows_ok (.done _)
      | some s =>
        have h₃ := s.short
        exact follows_end (follows_declaratorList stop base storage sc₂ s.rest)
          fun v r₄ _ => follows_ok (.done _)
termination_by ts.length

theorem follows_externalDeclaration (stop : Location) (sc : Scope) (ts : List Token) :
    Follows sc Prod.snd (externalDeclaration stop sc ts) (externalTrace stop sc ts) := by
  unfold externalDeclaration externalTrace
  cases hs : take? .semicolon ts with
  | some s => exact follows_ok (.done _)
  | none =>
    refine follows_bind (follows_specifiers stop {} sc ts) fun (specs, sc₁) r₁ h₁ => ?_
    dsimp only
    cases hbase : specs.resolve (place stop ts) with
    | error x => exact follows_error
    | ok base =>
      cases hc : take? .semicolon r₁ with
      | some s => exact follows_ok (.done _)
      | none =>
        exact follows_end (follows_declaratorList stop base specs.storage sc₁ r₁)
          fun v r₂ _ => follows_ok (.done _)

/-- **The `declarationsTrace` leads to the context that they leave.** -/
theorem runs_declarations {stop : Location} {sc sc' : Scope} {ts : List Token}
    {ds : List Declaration} (h : declarations stop sc ts = .ok (ds, sc')) :
    sc.context.Runs (declarationsTrace stop sc ts) sc'.context := by
  unfold declarations at h
  unfold declarationsTrace
  split at h
  · rename_i hts
    cases h
    rw [if_pos hts]
    exact .done _
  · rename_i hts
    rw [if_neg hts]
    cases he : externalDeclaration stop sc ts with
    | error x => rw [he] at h; cases h
    | ok s =>
      have hlt := s.short
      rw [he] at h
      cases hr : declarations stop s.value.2 s.rest with
      | error x => simp only [bind, Except.bind, hr] at h; cases h
      | ok v =>
        simp only [bind, Except.bind, hr] at h
        cases h
        exact (follows_externalDeclaration stop sc ts s he).append (runs_declarations hr)
termination_by ts.length

/-- **The `sourceTrace` leads to the context that the source leaves.** -/
theorem runs_parseSource {source : String} {ctx : Context} {ds : List Declaration} {sc : Scope}
    (h : parseSource source ctx = .ok (ds, sc)) : ctx.Runs (sourceTrace source ctx) sc.context := by
  unfold parseSource parseBytes at h
  unfold sourceTrace
  cases ht : tokenize source.toUTF8.toList with
  | error x => rw [ht] at h; cases h
  | ok v =>
    rw [ht] at h
    exact runs_declarations h

end TypeLedger
