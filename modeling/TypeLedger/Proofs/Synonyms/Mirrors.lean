import TypeLedger.Proofs.Synonyms.Scopes

/-!
# Steps on two texts

* `BuiltinSynonym.Mirrors`: if a step on a text succeeds, and takes the name for no name, a step on
  the text with the words succeeds with what belongs to it.
* There is one lemma for each part of the grammar that meets no specifiers.
-/

namespace TypeLedger

variable {α β γ δ : Type} {m n m' n' : Nat} {stop stop' : Location} {sc sc' : Scope}
  {ts ts' : List Token}

namespace BuiltinSynonym

variable {S : BuiltinSynonym}

/-! ## 1. Steps -/

/-- If the first step succeeds, and takes the name for no name, the second one succeeds with a value
that belongs to that of the first, and leaves the words where the first leaves their name. -/
def Mirrors (S : BuiltinSynonym) (rel : α → β → Prop) (roles : List Role)
    (e : Except SourceError (Step m α)) (e' : Except SourceError (Step n β)) : Prop :=
  S.Permits roles → ∀ s, e = .ok s →
    ∃ v' r', Gives e' v' r' ∧ rel s.value v' ∧ S.Respells s.rest r'

section Steps

variable {rel : α → β → Prop} {inner : γ → δ → Prop} {roles : List Role}

theorem mirrors_ok {s : Step m α} {s' : Step n β} (hv : rel s.value s'.value)
    (hr : S.Respells s.rest s'.rest) : S.Mirrors rel roles (.ok s) (.ok s') := by
  rintro - s₁ hs
  cases hs
  exact ⟨_, _, gives_ok, hv, hr⟩

theorem mirrors_error {x : SourceError} {e' : Except SourceError (Step n β)} :
    S.Mirrors rel roles (.error x : Except SourceError (Step m α)) e' := by
  rintro - s hs
  cases hs

/-- What the roles permit may be used. -/
theorem mirrors_of_permits {e : Except SourceError (Step m α)} {e' : Except SourceError (Step n β)}
    (h : S.Permits roles → S.Mirrors rel roles e e') : S.Mirrors rel roles e e' :=
  fun hp => h hp hp

/-- Roles in front may be left out. -/
theorem Mirrors.after {e : Except SourceError (Step m α)} {e' : Except SourceError (Step n β)}
    (h : S.Mirrors rel roles e e') (front : List Role) : S.Mirrors rel (front ++ roles) e e' :=
  fun hp => h (permits_append.1 hp).2

variable {e : Except SourceError (Step m γ)} {e' : Except SourceError (Step n δ)}
  {f : Step m γ → Except SourceError (Step m' α)} {f' : Step n δ → Except SourceError (Step n' β)}

/-- A step, and what follows it. -/
theorem mirrors_bind {k : Step m γ → List Role} (he : S.Mirrors inner roles e e')
    (hf : ∀ v r hlt v' r' hlt', inner v v' → S.Respells r r' →
      S.Mirrors rel (k ⟨v, r, hlt⟩) (f ⟨v, r, hlt⟩) (f' ⟨v', r', hlt'⟩)) :
    S.Mirrors rel (roles ++ Role.behind e k) (e >>= f) (e' >>= f') := by
  intro hp s hs
  obtain ⟨hp₁, hp₂⟩ := permits_append.1 hp
  cases e with
  | error x => cases hs
  | ok s₁ =>
    obtain ⟨v', r', ⟨s₁', hs₁', rfl, rfl⟩, hv, hr⟩ := he hp₁ s₁ rfl
    subst hs₁'
    exact hf s₁.value s₁.rest s₁.short s₁'.value s₁'.rest s₁'.short hv hr hp₂ s hs

/-- A step, behind which no roles come. -/
theorem mirrors_end (he : S.Mirrors inner roles e e')
    (hf : ∀ v r hlt v' r' hlt', inner v v' → S.Respells r r' →
      S.Mirrors rel [] (f ⟨v, r, hlt⟩) (f' ⟨v', r', hlt'⟩)) :
    S.Mirrors rel roles (e >>= f) (e' >>= f') := by
  have hbehind : Role.behind e (fun _ => []) = [] := by cases e <;> rfl
  have h := mirrors_bind (k := fun _ => []) he hf
  rwa [hbehind, List.append_nil] at h

/-- A step without roles, and what follows it. -/
theorem mirrors_silent {k : Step m γ → List Role} (he : S.Mirrors inner [] e e')
    (hf : ∀ v r hlt v' r' hlt', inner v v' → S.Respells r r' →
      S.Mirrors rel (k ⟨v, r, hlt⟩) (f ⟨v, r, hlt⟩) (f' ⟨v', r', hlt'⟩)) :
    S.Mirrors rel (Role.behind e k) (e >>= f) (e' >>= f') :=
  mirrors_bind he hf

end Steps

/-! ## 2. Marks and skipped text -/

variable {roles : List Role}

theorem mirrors_expect (h : S.Respells ts ts') (m : Mark) :
    S.Mirrors Eq roles (expect stop m ts) (expect stop' m ts') := by
  unfold expect
  rcases h.take? m with ⟨hn, hn'⟩ | ⟨r, r', _, _, hs, hs', hr⟩
  · rw [hn]
    exact mirrors_error
  · rw [hs, hs']
    exact mirrors_ok rfl hr

theorem mirrors_skipTo (h : S.Respells ts ts') {ends : TokenKind → Bool}
    (hends : ∀ k, ends k = true → ∃ m, k = .mark m) :
    S.Mirrors Eq roles (skipTo stop ends ts) (skipTo stop' ends ts') := by
  rintro - ⟨v, r, hlt⟩ hs
  obtain ⟨r', hr', hrest⟩ := h.skipUntil? hends (skipUntil?_of_skipTo hs)
  exact ⟨(), r', gives_skipTo_of_skipUntil? hr', rfl, hrest⟩

theorem mirrors_skipBody (h : S.Respells ts ts') :
    S.Mirrors Eq roles (skipBody stop ts) (skipBody stop' ts') := by
  unfold skipBody
  refine mirrors_end (mirrors_expect h _) fun _ r₁ _ _ r₁' _ _ hr₁ => ?_
  refine mirrors_end (mirrors_skipTo hr₁ fun _ hk => ⟨_, TokenKind.isMark_iff.1 hk⟩)
    fun _ r₂ _ _ r₂' _ _ hr₂ => ?_
  exact mirrors_end (mirrors_expect hr₂ _) fun _ _ _ _ _ _ _ hr₃ => mirrors_ok rfl hr₃

theorem mirrors_skipInitializer (h : S.Respells ts ts') :
    S.Mirrors Eq roles (skipInitializer stop ts) (skipInitializer stop' ts') := by
  rcases h.cases_head with ⟨rfl, rfl⟩ | ⟨t, t', r, r', rfl, rfl, hk, -, hr⟩ |
    ⟨t, t', r, r', w, rfl, rfl, ht, hk⟩
  · exact mirrors_ok rfl h
  · by_cases ht : t.kind = .mark .equals
    · unfold skipInitializer
      rw [take?_of_kind ht, take?_of_kind (hk.trans ht)]
      have hends (k : TokenKind) (h : k.isSeparator = true) : ∃ m, k = .mark m :=
        (TokenKind.isSeparator_iff.1 h).elim (⟨_, ·⟩) (⟨_, ·⟩)
      exact mirrors_end (mirrors_skipTo hr hends) fun _ _ _ _ _ _ _ hr₂ => mirrors_ok rfl hr₂
    · unfold skipInitializer
      rw [take?_of_ne ht, take?_of_ne (hk ▸ ht)]
      exact mirrors_ok rfl h
  · unfold skipInitializer
    rw [take?_of_ne (by rw [ht]; simp), take?_of_ne (by rw [hk]; simp)]
    exact mirrors_ok rfl h

theorem mirrors_bitWidth (h : S.Respells ts ts') :
    S.Mirrors Eq roles (bitWidth stop ts) (bitWidth stop' ts') := by
  rcases h.cases_head with ⟨rfl, rfl⟩ | ⟨t, t', r, r', rfl, rfl, hk, -, hr⟩ |
    ⟨t, t', r, r', w, rfl, rfl, ht, hk⟩
  · exact mirrors_error
  · unfold bitWidth
    dsimp only
    rw [hk]
    split
    · split
      · exact mirrors_ok rfl hr
      · exact mirrors_error
    · exact mirrors_error
  · unfold bitWidth
    dsimp only
    rw [ht]
    exact mirrors_error

theorem mirrors_optionalWidth (h : S.Respells ts ts') :
    S.Mirrors Eq roles (optionalWidth stop ts) (optionalWidth stop' ts') := by
  unfold optionalWidth
  rcases h.take? .colon with ⟨hn, hn'⟩ | ⟨r, r', _, _, hs, hs', hr⟩
  · rw [hn, hn']
    exact mirrors_ok rfl h
  · rw [hs, hs']
    refine mirrors_end (mirrors_bitWidth hr) fun w r₂ _ w' r₂' _ hw hr₂ => ?_
    subst hw
    exact mirrors_ok rfl hr₂

theorem mirrors_labelColon (h : S.Respells ts ts') (key : RecordKey) (l l' : Location) :
    S.Mirrors Eq roles (labelColon stop key l ts) (labelColon stop' key l' ts') := by
  unfold labelColon
  split
  · exact mirrors_expect h _
  · exact mirrors_error

theorem mirrors_sizeBefore (h : S.Respells ts ts') :
    S.Mirrors Eq roles (sizeBefore stop ts) (sizeBefore stop' ts') := by
  unfold sizeBefore
  rcases h.closedSize? with ⟨hn, hn'⟩ | ⟨size, r, r', _, _, hs, hs', hr⟩
  · rw [hn, hn']
    refine mirrors_end (mirrors_skipTo h fun _ hk => ⟨_, TokenKind.isMark_iff.1 hk⟩)
      fun _ r₁ _ _ r₁' _ _ hr₁ => ?_
    exact mirrors_end (mirrors_expect hr₁ _) fun _ _ _ _ _ _ _ hr₂ => mirrors_ok rfl hr₂
  · rw [hs, hs']
    exact mirrors_ok rfl hr

theorem mirrors_arraySuffix (h : S.Respells ts ts') :
    S.Mirrors Eq roles (arraySuffix stop ts) (arraySuffix stop' ts') := by
  unfold arraySuffix
  exact mirrors_end (mirrors_sizeBefore h.dropWhile_isArrayWord)
    fun _ _ _ _ _ _ hv hr => mirrors_ok hv hr

/-! ## 3. Bases and enumerations -/

theorem mirrors_expectIdent (h : S.Respells ts ts') :
    S.Mirrors (fun x x' => x = x' ∧ x ≠ S.name) (Role.ofName (optionalName ts).value)
      (expectIdent stop ts) (expectIdent stop' ts') := by
  rintro hp ⟨x, r, hlt⟩ hs
  unfold expectIdent at hs
  split at hs
  · rename_i s hi
    cases hs
    have hx := hp.ne_name
    rw [(optionalName_of_some hi).1] at hx
    have hx' : x ≠ S.name := fun he => hx (congrArg some he)
    have hname : ∀ s, TypeLedger.takeIdent? ts = some s → s.value ≠ S.name := by
      intro s hs
      rw [hi] at hs
      cases hs
      exact hx'
    rcases h.takeIdent? hname with ⟨hn, -⟩ | ⟨y, r₁, r', _, _, -, hi₁, hi', hr⟩
    · rw [hn] at hi
      cases hi
    · rw [hi] at hi₁
      cases hi₁
      refine ⟨x, r', ?_, ⟨rfl, hx'⟩, hr⟩
      unfold expectIdent
      rw [hi']
      exact ⟨_, rfl, rfl, rfl⟩
  · cases hs

theorem mirrors_baseClause (hsc : S.Scopes sc sc') {ts ts' : List Token} (h : S.Respells ts ts') :
    S.Mirrors Eq (baseRoles stop ts) (baseClause stop sc ts) (baseClause stop' sc' ts') := by
  obtain ⟨hv, hr₁⟩ := h.baseWords
  have h₁ := (baseWords ts).short
  unfold baseClause baseRoles
  refine mirrors_bind (mirrors_expectIdent hr₁) fun x r₂ h₂ x' r₂' _ hx hr₂ => ?_
  obtain ⟨rfl, hx⟩ := hx
  dsimp only
  rw [hsc.recordType? hx]
  simp only [hv]
  cases sc.recordType? x with
  | none => exact mirrors_error
  | some type =>
    rcases hr₂.take? .comma with ⟨hn, hn'⟩ | ⟨r₃, r₃', h₃, _, hs, hs', hr₃⟩
    · rw [hn, hn']
      exact mirrors_ok rfl hr₂
    · rw [hs, hs']
      refine mirrors_end (mirrors_baseClause hsc hr₃) fun bs r₄ _ bs' r₄' _ hb hr₄ => ?_
      subst hb
      exact mirrors_ok rfl hr₄
termination_by ts.length

theorem mirrors_optionalBases (hsc : S.Scopes sc sc') (h : S.Respells ts ts') (key : RecordKey) :
    S.Mirrors Eq (optionalBaseRoles stop ts) (optionalBases stop key sc ts)
      (optionalBases stop' key sc' ts') := by
  unfold optionalBases optionalBaseRoles
  rcases h.take? .colon with ⟨hn, hn'⟩ | ⟨r, r', _, _, hs, hs', hr⟩
  · rw [hn, hn']
    exact mirrors_ok rfl h
  · rw [hs, hs']
    dsimp only
    split
    · exact mirrors_end (mirrors_baseClause hsc hr) fun _ _ _ _ _ _ hb hr₂ => mirrors_ok hb hr₂
    · exact mirrors_error

/-- The second value is what `f` makes of the first, and their scopes belong together. -/
def Carries (S : BuiltinSynonym) (f : α → α) (v v' : α × Scope) : Prop :=
  v'.1 = f v.1 ∧ S.Scopes v.2 v'.2

theorem mirrors_enumSpecifier (hsc : S.Scopes sc sc') (h : S.Respells ts ts') :
    S.Mirrors (S.Carries S.inType) (enumRoles ts) (enumSpecifier stop sc ts)
      (enumSpecifier stop' sc' ts') := by
  refine mirrors_of_permits fun hp => ?_
  obtain ⟨hv, hr⟩ := h.optionalName hp.ne_name
  have hfind : sc'.context.findEnum? = sc.context.findEnum? := by
    funext x
    rw [Context.findEnum?, hsc.enums]
    rfl
  unfold enumSpecifier
  simp only [hv, hr.startsWith_eq, hfind]
  cases (optionalName ts).value.bind sc.context.findEnum? with
  | none =>
    obtain ⟨hid, hctx⟩ := hsc.declareEnum (optionalName ts).value
    dsimp only
    rw [hid]
    have hvalue : S.Carries S.inType
        (.enumeration .none (sc.context.declareEnum (optionalName ts).value).1,
          { sc with context := (sc.context.declareEnum (optionalName ts).value).2 })
        (.enumeration .none (sc.context.declareEnum (optionalName ts).value).1,
          { sc' with context := (sc'.context.declareEnum (optionalName ts).value).2 }) :=
      ⟨rfl, hsc.withContext hctx⟩
    split
    · exact mirrors_end (mirrors_skipBody hr) fun _ _ _ _ _ _ _ hr₂ => mirrors_ok hvalue hr₂
    · exact mirrors_ok hvalue hr
  | some id =>
    have hvalue : S.Carries S.inType (.enumeration .none id, sc) (.enumeration .none id, sc') :=
      ⟨rfl, hsc⟩
    dsimp only
    split
    · exact mirrors_end (mirrors_skipBody hr) fun _ _ _ _ _ _ _ hr₂ => mirrors_ok hvalue hr₂
    · exact mirrors_ok hvalue hr

end BuiltinSynonym

end TypeLedger
