import TypeLedger.Proofs.Grammar.Procedures

/-!
# The functions of the grammar are the procedures

* `grammar`: the functions of the grammar, one for each procedure.
* `run_script`: they answer a call as the script of the called procedure does, when its own calls
  are answered in the same way.
-/

namespace TypeLedger

/-! ## 1. The replies -/

/-- What a step has found and the tokens that it leaves. -/
def Step.found {bound : Nat} {α : Type} (s : Step bound α) : α × List Token := (s.value, s.rest)

/-- The tokens that a search for the end of skipped text leaves. -/
def endFound (stop : Location) (rest : Option (List Token)) :
    Except SourceError (Unit × List Token) :=
  match rest with
  | some r => .ok ((), r)
  | none => .error (faultAt stop .endOfFile)

/-- **The functions of the grammar**, one for each procedure. -/
def grammar [Counting] (stop : Location) : Replies
  | .declarations, sc, ts => (·, []) <$> declarations stop sc ts
  | .external, sc, ts => Step.found <$> externalDeclaration stop sc ts
  | .declaratorList, (base, storage, sc), ts =>
    Step.found <$> declaratorList stop base storage sc ts
  | .specifiers, (acc, sc), ts => Step.found <$> specifiers stop acc sc ts
  | .record, (key, l, sc), ts => Step.found <$> recordSpecifier stop key l sc ts
  | .baseClause, sc, ts => Step.found <$> baseClause stop sc ts
  | .baseWords, _, ts => .ok (baseWords ts).found
  | .enumeration, sc, ts => Step.found <$> enumSpecifier stop sc ts
  | .members, (key, access, sc), ts => Step.found <$> members stop key access sc ts
  | .memberGroup, (base, access, sc), ts => Step.found <$> memberGroup stop base access sc ts
  | .memberList, (base, access, sc), ts => Step.found <$> memberList stop base access sc ts
  | .memberDeclarator, sc, ts => Step.found <$> memberDeclarator stop sc ts
  | .declarator, sc, ts => Step.found <$> declarator stop sc ts
  | .pointers, _, ts => .ok (pointerRun ts).found
  | .qualifiers, _, ts => .ok (qualifierRun ts).found
  | .core, sc, ts => Step.found <$> declaratorCore stop sc ts
  | .suffixes, sc, ts => Step.found <$> suffixRun stop sc ts
  | .arraySuffix, _, ts => Step.found <$> arraySuffix stop ts
  | .arrayWords, _, ts => .ok ((), ts.dropWhile fun t => isArrayWord t.kind)
  | .functionSuffix, sc, ts => Step.found <$> functionSuffix stop sc ts
  | .parameters, sc, ts => Step.found <$> parameters stop sc ts
  | .parameterDeclarator, sc, ts => Step.found <$> parameterDeclarator stop sc ts
  | .body, _, ts => Step.found <$> skipBody stop ts
  | .skip, (ends, depth), ts => endFound stop (skipUntil? ends depth ts)

/-! ## 2. Running scripts -/

namespace Script

variable {R : Replies} {α β σ τ : Type}

theorem run_bind (s : Script α) (f : α → Script β) :
    (s >>= f).run R = s.run R >>= fun a => (f a).run R := by
  show (s.bind f).run R = _
  induction s with
  | done a => rfl
  | fail e => rfl
  | call p args ts next ih => simp only [bind, run, ih, bind_assoc]

theorem run_ask (p : Procedure) (args : p.Args) (ts : List Token) :
    (ask p args ts).run R = R p args ts :=
  bind_pure (R p args ts)

/-- A part that runs as a function of the grammar. -/
theorem run_part {s : Script α} {e : Except SourceError σ} {found : σ → α}
    {f : σ → Except SourceError τ} {found' : τ → β} {k : α → Script β}
    (hs : s.run R = found <$> e) (h : ∀ v, (k (found v)).run R = found' <$> f v) :
    (s >>= k).run R = found' <$> (e >>= f) := by
  rw [run_bind, hs]
  cases e with
  | error e => rfl
  | ok v => exact h v

/-- A check that makes no call. -/
theorem run_checked {e : Except SourceError α} {f : α → Except SourceError τ} {found' : τ → β}
    {k : α → Script β} (h : ∀ v, (k v).run R = found' <$> f v) :
    (liftM e >>= k).run R = found' <$> (e >>= f) := by
  cases e with
  | error e => rfl
  | ok v => exact h v

variable {p : Procedure} {args : p.Args} {ts : List Token} {e : Except SourceError σ}
  {found : σ → p.Value × List Token}

/-- A call that a function of the grammar answers. -/
theorem run_asked {f : σ → Except SourceError τ} {found' : τ → β}
    {k : p.Value × List Token → Script β} (ha : R p args ts = found <$> e)
    (h : ∀ v, (k (found v)).run R = found' <$> f v) :
    (ask p args ts >>= k).run R = found' <$> (e >>= f) :=
  run_part ((run_ask p args ts).trans ha) h

/-- A call in last place, whose reply is handed on. -/
theorem run_asked_last {f : σ → τ} {found' : τ → p.Value × List Token}
    (ha : R p args ts = found <$> e) (h : ∀ v, found v = found' (f v)) :
    (ask p args ts).run R = found' <$> (e >>= fun v => pure (f v)) := by
  rw [run_ask, ha]
  cases e with
  | error e => rfl
  | ok v => exact congrArg Except.ok (h v)

/-- A call that is always answered. -/
theorem run_replied {v : p.Value × List Token} {k : p.Value × List Token → Script β}
    (ha : R p args ts = .ok v) : (ask p args ts >>= k).run R = (k v).run R := by
  rw [run_bind, run_ask, ha]
  rfl

end Script

/-! ## 3. One procedure after the other -/

section Procedures

open Script (ask run_ask run_part run_checked run_asked run_asked_last run_replied)

variable [Counting] (stop : Location)

theorem run_skipTo (ends : TokenKind → Bool) (ts : List Token) :
    (ask .skip (ends, 0) ts).run (grammar stop) = Step.found <$> skipTo stop ends ts := by
  rw [run_ask]
  show endFound stop (skipUntil? ends 0 ts) = _
  unfold skipTo
  split
  next hr => simp only [hr]; rfl
  next hr => simp only [hr]; rfl

theorem run_optionalInitializer (ts : List Token) :
    (Script.optionalInitializer ts).run (grammar stop) =
      Step.found <$> skipInitializer stop ts := by
  unfold Script.optionalInitializer skipInitializer
  cases take? .equals ts with
  | none => rfl
  | some s =>
    exact run_asked_last ((run_ask ..).symm.trans (run_skipTo stop ..)) fun _ => rfl

theorem run_optionalBases (key : RecordKey) (sc : Scope) (ts : List Token) :
    (Script.optionalBases stop key sc ts).run (grammar stop) =
      Step.found <$> optionalBases stop key sc ts := by
  unfold Script.optionalBases optionalBases
  cases take? .colon ts with
  | none => rfl
  | some s =>
    by_cases hkey : key = .classKey
    · simp only [hkey, if_true]
      exact run_asked_last rfl fun _ => rfl
    · simp only [hkey, if_false]
      rfl

theorem run_declarations (sc : Scope) (ts : List Token) :
    (Script.declarations sc ts).run (grammar stop) = (·, []) <$> declarations stop sc ts := by
  simp only [Script.declarations]
  rw [declarations]
  by_cases hts : ts.isEmpty
  · simp only [hts, if_true]
    rfl
  · simp only [hts, Bool.false_eq_true, if_false]
    exact run_asked rfl fun _ => run_asked rfl fun _ => rfl

theorem run_external (sc : Scope) (ts : List Token) :
    (Script.external stop sc ts).run (grammar stop) =
      Step.found <$> externalDeclaration stop sc ts := by
  simp only [Script.external]
  rw [externalDeclaration]
  cases take? .semicolon ts with
  | some s => rfl
  | none =>
    refine run_asked rfl fun s => run_checked fun base => ?_
    obtain ⟨⟨specs, sc₁⟩, r₁, _⟩ := s
    dsimp only [Step.found]
    cases take? .semicolon r₁ with
    | some s => rfl
    | none => exact run_asked_last rfl fun _ => rfl

theorem run_declaratorList (base : CType) (storage : Option StorageClass) (sc : Scope)
    (ts : List Token) :
    (Script.declaratorList stop base storage sc ts).run (grammar stop) =
      Step.found <$> declaratorList stop base storage sc ts := by
  simp only [Script.declaratorList]
  rw [declaratorList]
  refine run_asked rfl fun s => ?_
  obtain ⟨⟨d, sc₁⟩, r₁, _⟩ := s
  dsimp only [Step.found]
  cases d.name with
  | none => rfl
  | some name =>
    dsimp only
    by_cases hbody : (d.apply base).isFunction && startsWith .braceOpen r₁
    · simp only [hbody, if_true]
      exact run_asked rfl fun _ => rfl
    · simp only [hbody, Bool.false_eq_true, if_false]
      refine run_part (run_optionalInitializer stop r₁) fun s => ?_
      dsimp only [Step.found]
      cases take? .comma s.rest with
      | some s => exact run_asked rfl fun _ => rfl
      | none => exact run_checked fun _ => rfl

-- The script is unfolded in each case by itself, so that only the function is there to be split.
theorem run_specifiers (acc : Specifiers) (sc : Scope) (ts : List Token) :
    (Script.specifiers stop acc sc ts).run (grammar stop) =
      Step.found <$> specifiers stop acc sc ts := by
  rw [specifiers.eq_def]
  cases ts with
  | nil => rfl
  | cons t r =>
    dsimp only
    cases hadd : acc.add? sc t.kind with
    | some acc' =>
      simp only [Script.specifiers, hadd]
      exact run_asked_last rfl fun _ => rfl
    | none =>
      dsimp only
      split
      next key hk =>
        simp only [Script.specifiers, hk]
        exact run_asked rfl fun _ => run_checked fun _ => run_asked_last rfl fun _ => rfl
      next hk =>
        simp only [Script.specifiers, hk]
        exact run_asked rfl fun _ => run_checked fun _ => run_asked_last rfl fun _ => rfl
      next =>
        simp only [Script.specifiers, hadd]
        rfl

theorem run_record (key : RecordKey) (l : Location) (sc : Scope) (ts : List Token) :
    (Script.record stop key l sc ts).run (grammar stop) =
      Step.found <$> recordSpecifier stop key l sc ts := by
  simp only [Script.record]
  rw [recordSpecifier]
  cases optionalName ts with
  | mk name r₁ h₁ =>
    dsimp only
    cases tagged sc key name (startsWith .braceOpen r₁ || startsWith .colon r₁) with
    | error f => rfl
    | ok v =>
      obtain ⟨id, sc₁⟩ := v
      dsimp only
      by_cases hbody : startsWith .braceOpen r₁ || startsWith .colon r₁
      · simp only [hbody, if_true]
        exact run_part (run_optionalBases stop key _ r₁) fun _ => run_checked fun _ =>
          run_asked rfl fun _ => run_checked fun _ => rfl
      · simp only [hbody, Bool.false_eq_true, if_false]
        rfl

theorem run_baseClause (sc : Scope) (ts : List Token) :
    (Script.baseClause stop sc ts).run (grammar stop) = Step.found <$> baseClause stop sc ts := by
  simp only [Script.baseClause]
  rw [baseClause]
  refine run_checked fun s => ?_
  obtain ⟨name, r₂, _⟩ := s
  dsimp only
  cases sc.recordType? name with
  | none => rfl
  | some type =>
    dsimp only
    cases take? .comma r₂ with
    | none => rfl
    | some s => exact run_asked rfl fun _ => rfl

theorem run_enumeration (sc : Scope) (ts : List Token) :
    (Script.enumeration sc ts).run (grammar stop) = Step.found <$> enumSpecifier stop sc ts := by
  simp only [Script.enumeration]
  rw [enumSpecifier]
  by_cases hbody : startsWith .braceOpen (optionalName ts).rest
  · simp only [hbody, if_true]
    exact run_asked rfl fun _ => rfl
  · simp only [hbody, Bool.false_eq_true, if_false]
    rfl

theorem run_members (key : RecordKey) (access : Option Access) (sc : Scope) (ts : List Token) :
    (Script.members stop key access sc ts).run (grammar stop) =
      Step.found <$> members stop key access sc ts := by
  rw [members.eq_def]
  cases ts with
  | nil => rfl
  | cons t r =>
    dsimp only
    split
    next hk =>
      simp only [Script.members, hk]
      rfl
    next a hk =>
      simp only [Script.members, hk]
      exact run_checked fun _ => run_asked_last rfl fun _ => rfl
    next hk =>
      simp only [Script.members, hk]
      exact run_asked_last rfl fun _ => rfl
    next =>
      simp only [Script.members]
      exact run_asked rfl fun _ => run_checked fun _ => run_asked rfl fun _ =>
        run_checked fun _ => run_asked rfl fun _ => rfl

theorem run_memberGroup (base : CType) (access : Option Access) (sc : Scope) (ts : List Token) :
    (Script.memberGroup base access sc ts).run (grammar stop) =
      Step.found <$> memberGroup stop base access sc ts := by
  simp only [Script.memberGroup]
  rw [memberGroup]
  by_cases hsemi : startsWith .semicolon ts
  · simp only [hsemi, if_true]
    rfl
  · simp only [hsemi, Bool.false_eq_true, if_false]
    exact run_ask ..

theorem run_memberList (base : CType) (access : Option Access) (sc : Scope) (ts : List Token) :
    (Script.memberList stop base access sc ts).run (grammar stop) =
      Step.found <$> memberList stop base access sc ts := by
  simp only [Script.memberList]
  rw [memberList]
  refine run_asked rfl fun _ => run_checked fun s => ?_
  dsimp only [Step.found]
  cases take? .comma s.rest with
  | none => rfl
  | some s => exact run_asked rfl fun _ => rfl

theorem run_memberDeclarator (sc : Scope) (ts : List Token) :
    (Script.memberDeclarator sc ts).run (grammar stop) =
      Step.found <$> memberDeclarator stop sc ts := by
  simp only [Script.memberDeclarator]
  rw [memberDeclarator]
  by_cases hcolon : startsWith .colon ts
  · simp only [hcolon, if_true]
    rfl
  · simp only [hcolon, Bool.false_eq_true, if_false]
    exact run_ask ..

theorem run_declarator (sc : Scope) (ts : List Token) :
    (Script.declarator sc ts).run (grammar stop) = Step.found <$> declarator stop sc ts := by
  simp only [Script.declarator]
  rw [declarator, run_replied rfl]
  exact run_asked rfl fun _ => run_asked rfl fun _ => rfl

theorem run_core (sc : Scope) (ts : List Token) :
    (Script.core stop sc ts).run (grammar stop) = Step.found <$> declaratorCore stop sc ts := by
  simp only [Script.core]
  rw [declaratorCore]
  cases takeNested? sc ts with
  | none => rfl
  | some s => exact run_asked rfl fun _ => run_checked fun _ => rfl

theorem run_suffixes (sc : Scope) (ts : List Token) :
    (Script.suffixes sc ts).run (grammar stop) = Step.found <$> suffixRun stop sc ts := by
  simp only [Script.suffixes]
  rw [suffixRun]
  cases take? .bracketOpen ts with
  | some s => exact run_asked rfl fun _ => run_asked rfl fun _ => rfl
  | none =>
    dsimp only
    cases take? .parenOpen ts with
    | some s => exact run_asked rfl fun _ => run_asked rfl fun _ => rfl
    | none => rfl

theorem run_pointers (ts : List Token) :
    (Script.pointers ts).run (grammar stop) = .ok (pointerRun ts).found := by
  simp only [Script.pointers]
  rw [pointerRun]
  cases takePointer? ts with
  | none => rfl
  | some s => rfl

theorem run_qualifiers (ts : List Token) :
    (Script.qualifiers ts).run (grammar stop) = .ok (qualifierRun ts).found := by
  cases ts with
  | nil => rfl
  | cons t r =>
    rw [qualifierRun]
    split
    next hk =>
      simp only [Script.qualifiers, hk]
      rfl
    next =>
      simp only [Script.qualifiers]
      rfl

theorem run_baseWords (ts : List Token) :
    (Script.baseWords ts).run (grammar stop) = .ok (baseWords ts).found := by
  cases ts with
  | nil => rfl
  | cons t r =>
    rw [baseWords]
    split
    next hk =>
      simp only [Script.baseWords, hk]
      rfl
    next hk =>
      simp only [Script.baseWords, hk]
      rfl
    next =>
      simp only [Script.baseWords]
      rfl

theorem run_arrayWords (ts : List Token) :
    (Script.arrayWords ts).run (grammar stop) =
      .ok ((), ts.dropWhile fun t => isArrayWord t.kind) := by
  simp only [Script.arrayWords]
  cases ts with
  | nil => rfl
  | cons t r =>
    dsimp only
    by_cases hw : isArrayWord t.kind
    · simp only [hw, List.dropWhile_cons_of_pos]
      rfl
    · simp only [hw, Bool.false_eq_true, not_false_eq_true, List.dropWhile_cons_of_neg]
      rfl

theorem run_skip (ends : TokenKind → Bool) (depth : Nat) (ts : List Token) :
    (Script.skip stop ends depth ts).run (grammar stop) =
      endFound stop (skipUntil? ends depth ts) := by
  simp only [Script.skip]
  cases ts with
  | nil => rfl
  | cons t r =>
    rw [skipUntil?]
    by_cases hend : depth = 0 ∧ ends t.kind = true
    · simp only [hend, and_self, if_true]
      rfl
    · simp only [hend, if_false]
      exact run_ask ..

theorem run_body (ts : List Token) :
    (Script.body stop ts).run (grammar stop) = Step.found <$> skipBody stop ts := by
  simp only [Script.body]
  rw [skipBody]
  exact run_checked fun _ => run_part (run_skipTo stop ..) fun _ => run_checked fun _ => rfl

theorem run_arraySuffix (ts : List Token) :
    (Script.arraySuffix stop ts).run (grammar stop) = Step.found <$> arraySuffix stop ts := by
  simp only [Script.arraySuffix]
  rw [arraySuffix, run_replied rfl]
  unfold sizeBefore
  cases closedSize? (ts.dropWhile fun t => isArrayWord t.kind) with
  | some s => rfl
  | none =>
    simp only [bind_assoc]
    exact run_part (run_skipTo stop ..) fun _ => run_checked fun _ => rfl

theorem run_functionSuffix (sc : Scope) (ts : List Token) :
    (Script.functionSuffix stop sc ts).run (grammar stop) =
      Step.found <$> functionSuffix stop sc ts := by
  simp only [Script.functionSuffix]
  rw [functionSuffix]
  cases takeNoParameters? ts with
  | some s => rfl
  | none => exact run_asked rfl fun _ => run_checked fun _ => rfl

theorem run_parameters (sc : Scope) (ts : List Token) :
    (Script.parameters stop sc ts).run (grammar stop) = Step.found <$> parameters stop sc ts := by
  simp only [Script.parameters]
  rw [parameters]
  cases take? .ellipsis ts with
  | some s => rfl
  | none =>
    refine run_asked rfl fun _ => run_checked fun _ => run_asked rfl fun s => ?_
    dsimp only [Step.found]
    cases take? .comma s.rest with
    | none => rfl
    | some s => exact run_asked rfl fun _ => rfl

theorem run_parameterDeclarator (sc : Scope) (ts : List Token) :
    (Script.parameterDeclarator sc ts).run (grammar stop) =
      Step.found <$> parameterDeclarator stop sc ts := by
  simp only [Script.parameterDeclarator]
  rw [parameterDeclarator]
  by_cases hend : startsWith .comma ts || startsWith .parenClose ts
  · simp only [hend, if_true]
    rfl
  · simp only [hend, Bool.false_eq_true, if_false]
    exact run_ask ..

/-- **The functions of the `grammar` do what the scripts say.** They answer a call as the script of
the called procedure does, when its own calls are answered in the same way. -/
theorem run_script (p : Procedure) (args : p.Args) (ts : List Token) :
    (script stop p args ts).run (grammar stop) = grammar stop p args ts := by
  cases p with
  | declarations => exact run_declarations stop args ts
  | external => exact run_external stop args ts
  | declaratorList => exact run_declaratorList stop args.1 args.2.1 args.2.2 ts
  | specifiers => exact run_specifiers stop args.1 args.2 ts
  | record => exact run_record stop args.1 args.2.1 args.2.2 ts
  | baseClause => exact run_baseClause stop args ts
  | baseWords => exact run_baseWords stop ts
  | enumeration => exact run_enumeration stop args ts
  | members => exact run_members stop args.1 args.2.1 args.2.2 ts
  | memberGroup => exact run_memberGroup stop args.1 args.2.1 args.2.2 ts
  | memberList => exact run_memberList stop args.1 args.2.1 args.2.2 ts
  | memberDeclarator => exact run_memberDeclarator stop args ts
  | declarator => exact run_declarator stop args ts
  | pointers => exact run_pointers stop ts
  | qualifiers => exact run_qualifiers stop ts
  | core => exact run_core stop args ts
  | suffixes => exact run_suffixes stop args ts
  | arraySuffix => exact run_arraySuffix stop ts
  | arrayWords => exact run_arrayWords stop ts
  | functionSuffix => exact run_functionSuffix stop args ts
  | parameters => exact run_parameters stop args ts
  | parameterDeclarator => exact run_parameterDeclarator stop args ts
  | body => exact run_body stop ts
  | skip => exact run_skip stop args.1 args.2 ts


end Procedures

end TypeLedger
