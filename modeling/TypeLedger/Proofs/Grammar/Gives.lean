import TypeLedger.Source.Declaration

/-!
# What a reading step gives

* `Gives e v r`: the step `e` succeeds with the value `v` and leaves the tokens `r`. The bounds that
  the grammar's recursion goes down by are left out of sight.
* One lemma for each part of the grammar says when it gives what. Those about single tokens come
  first, then suffixes, pointers, declarators and specifiers.
-/

namespace TypeLedger

variable {α β : Type} {m n : Nat} {stop : Location} {sc sc₁ sc₂ sc₃ : Scope}
  {t : Token} {ts r r₁ r₂ r₃ : List Token}

/-! ## 1. Steps -/

/-- The step succeeds with the value `v` and leaves the tokens `r`. -/
def Gives (e : Except SourceError (Step n α)) (v : α) (r : List Token) : Prop :=
  ∃ s, e = .ok s ∧ s.value = v ∧ s.rest = r

theorem gives_ok {s : Step n α} : Gives (.ok s) s.value s.rest := ⟨s, rfl, rfl, rfl⟩

theorem gives_bind {e : Except SourceError (Step m α)}
    {f : Step m α → Except SourceError (Step n β)} {v : α} {w : β} (h : Gives e v r₁)
    (hf : ∀ hlt, Gives (f ⟨v, r₁, hlt⟩) w r₂) : Gives (e >>= f) w r₂ := by
  obtain ⟨⟨v', r', hlt⟩, rfl, rfl, rfl⟩ := h
  exact hf hlt

theorem of_gives_bind {e : Except SourceError (Step m α)}
    {f : Step m α → Except SourceError (Step n β)} {w : β} (h : Gives (e >>= f) w r₂) :
    ∃ s, e = .ok s ∧ Gives (f s) w r₂ := by
  cases e with
  | error x => obtain ⟨s, hs, -⟩ := h; cases hs
  | ok s => exact ⟨s, rfl, h⟩

/-! ## 2. Single tokens -/

theorem take?_of_kind {m : Mark} (h : t.kind = .mark m) :
    take? m (t :: r) = some ⟨(), r, length_rest_lt t r⟩ := by
  rw [take?, if_pos h]

theorem take?_of_ne {m : Mark} (h : t.kind ≠ .mark m) : take? m (t :: r) = none := by
  rw [take?, if_neg h]

/-- The first token, if there is one, has a kind that satisfies `p`. -/
def Heads (p : TokenKind → Prop) (ts : List Token) : Prop := ∀ t ∈ ts.head?, p t.kind

theorem heads_cons {p : TokenKind → Prop} : Heads p (t :: r) ↔ p t.kind := by
  simp [Heads]

theorem Heads.imp {p q : TokenKind → Prop} (h : Heads p ts) (hpq : ∀ k, p k → q k) :
    Heads q ts :=
  fun t ht => hpq _ (h t ht)

theorem take?_eq_none {m : Mark} (h : Heads (· ≠ .mark m) ts) : take? m ts = none := by
  cases ts with
  | nil => rfl
  | cons t r => exact take?_of_ne (heads_cons.1 h)

theorem gives_expect {m : Mark} (h : t.kind = .mark m) : Gives (expect stop m (t :: r)) () r := by
  unfold expect
  rw [take?_of_kind h]
  exact gives_ok

theorem startsWith_of_kind {m : Mark} (h : t.kind = .mark m) : startsWith m (t :: r) = true := by
  simp [startsWith, h]

theorem startsWith_eq_false {m : Mark} (h : Heads (· ≠ .mark m) ts) : startsWith m ts = false := by
  cases ts with
  | nil => rfl
  | cons t r => simpa [startsWith] using heads_cons.1 h

theorem takeIdent?_of_kind {name : String} (h : t.kind = .ident name) :
    takeIdent? (t :: r) = some ⟨name, r, length_rest_lt t r⟩ := by
  obtain ⟨k, l⟩ := t
  cases h
  rfl

theorem takeIdent?_eq_none (h : Heads (fun k => ∀ name, k ≠ .ident name) ts) :
    takeIdent? ts = none := by
  cases ts with
  | nil => rfl
  | cons t r =>
    obtain ⟨k, l⟩ := t
    have hk := heads_cons.1 h
    cases k with
    | ident name => exact absurd rfl (hk name)
    | _ => rfl

theorem optionalName_of_kind {name : String} (h : t.kind = .ident name) :
    (optionalName (t :: r)).value = some name ∧ (optionalName (t :: r)).rest = r := by
  unfold optionalName
  rw [takeIdent?_of_kind h]
  exact ⟨rfl, rfl⟩

theorem optionalName_of_none (h : takeIdent? ts = none) :
    (optionalName ts).value = none ∧ (optionalName ts).rest = ts := by
  unfold optionalName
  rw [h]
  exact ⟨rfl, rfl⟩

/-! ## 3. Qualifiers and pointers -/

/-- The token of a qualifier word. -/
def isQualifierKind : TokenKind → Bool
  | .keyword (.qualifier _) => true
  | _ => false

theorem qualifierRun_cons {w : Qualifier} (ts : List Token) (h : t.kind = .keyword (.qualifier w)) :
    (qualifierRun (t :: ts)).value = w.alone.union (qualifierRun ts).value ∧
      (qualifierRun (t :: ts)).rest = (qualifierRun ts).rest := by
  obtain ⟨k, l⟩ := t
  cases h
  rw [qualifierRun]
  exact ⟨rfl, rfl⟩

theorem qualifierRun_of_heads (h : Heads (fun k => isQualifierKind k = false) ts) :
    (qualifierRun ts).value = .none ∧ (qualifierRun ts).rest = ts := by
  cases ts with
  | nil => exact ⟨rfl, rfl⟩
  | cons t r =>
    obtain ⟨k, l⟩ := t
    have hk := heads_cons.1 h
    rw [qualifierRun]
    split
    · rename_i q hq
      cases hq
      cases hk
    · exact ⟨rfl, rfl⟩

/-- The token begins the part of a declarator in front of the name. -/
def isPointerKind : TokenKind → Bool
  | .mark m => m.pointerKind?.isSome
  | _ => false

theorem takePointer?_of_kind {m : Mark} {k : PointerKind} (h : t.kind = .mark m)
    (hm : m.pointerKind? = some k) :
    takePointer? (t :: r) = some ⟨k, r, length_rest_lt t r⟩ := by
  obtain ⟨kind, l⟩ := t
  cases h
  simp [takePointer?, hm]

theorem takePointer?_eq_none (h : Heads (fun k => isPointerKind k = false) ts) :
    takePointer? ts = none := by
  cases ts with
  | nil => rfl
  | cons t r =>
    obtain ⟨k, l⟩ := t
    have hk := heads_cons.1 h
    cases k with
    | mark m =>
      have hm : m.pointerKind? = none := by simpa [isPointerKind] using hk
      simp [takePointer?, hm]
    | _ => rfl

theorem pointerRun_of_heads (h : Heads (fun k => isPointerKind k = false) ts) :
    (pointerRun ts).value = [] ∧ (pointerRun ts).rest = ts := by
  unfold pointerRun
  rw [takePointer?_eq_none h]
  exact ⟨rfl, rfl⟩

theorem pointerRun_cons {m : Mark} {k : PointerKind} (ts : List Token) (h : t.kind = .mark m)
    (hm : m.pointerKind? = some k) :
    (pointerRun (t :: ts)).value =
        .pointer k (qualifierRun ts).value :: (pointerRun (qualifierRun ts).rest).value ∧
      (pointerRun (t :: ts)).rest = (pointerRun (qualifierRun ts).rest).rest := by
  conv => lhs; lhs; unfold pointerRun
  conv => rhs; lhs; unfold pointerRun
  rw [takePointer?_of_kind h hm]
  exact ⟨rfl, rfl⟩

/-! ## 4. Suffixes -/

theorem gives_arraySuffix_fixed {n : UInt64} {size close : Token} (hs : size.kind = .intLit n)
    (hc : close.kind = .mark .bracketClose) :
    Gives (arraySuffix stop (size :: close :: r)) (.fixed n) r := by
  obtain ⟨_, _⟩ := size
  obtain ⟨_, _⟩ := close
  cases hs
  cases hc
  exact ⟨_, rfl, rfl, rfl⟩

theorem gives_skipTo_of_skipUntil? {ends : TokenKind → Bool} (h : skipUntil? ends 0 ts = some r) :
    Gives (skipTo stop ends ts) () r := by
  unfold skipTo
  split
  · rename_i rest hr
    rw [h] at hr
    cases hr
    exact ⟨_, rfl, rfl, rfl⟩
  · rename_i hr
    rw [h] at hr
    cases hr

theorem gives_skipTo {ends : TokenKind → Bool} (h : ends t.kind = true) :
    Gives (skipTo stop ends (t :: r)) () (t :: r) :=
  gives_skipTo_of_skipUntil? (by rw [skipUntil?, if_pos ⟨rfl, h⟩])

/-- An initializer is passed over up to its end. -/
theorem gives_skipInitializer_of_skipUntil? (ht : t.kind = .mark .equals)
    (hr : skipUntil? TokenKind.isSeparator 0 r = some r₁) :
    Gives (skipInitializer stop (t :: r)) () r₁ := by
  unfold skipInitializer
  rw [take?_of_kind ht]
  exact gives_bind (gives_skipTo_of_skipUntil? hr) fun _ => ⟨_, rfl, rfl, rfl⟩

/-- Without an equals sign, there is no initializer. -/
theorem gives_skipInitializer_none (h : t.kind ≠ .mark .equals) :
    Gives (skipInitializer stop (t :: r)) () (t :: r) := by
  unfold skipInitializer
  rw [take?_of_ne h]
  exact gives_ok

theorem gives_arraySuffix {n : ArraySize}
    (h : Gives (sizeBefore stop (ts.dropWhile fun t => isArrayWord t.kind)) n r) :
    Gives (arraySuffix stop ts) n r := by
  unfold arraySuffix
  exact gives_bind h fun _ => ⟨_, rfl, rfl, rfl⟩

theorem gives_arraySuffix_unknown (hc : t.kind = .mark .bracketClose) :
    Gives (arraySuffix stop (t :: r)) .unknown r := by
  have hd : (t :: r).dropWhile (fun t => isArrayWord t.kind) = t :: r := by
    rw [List.dropWhile_cons_of_neg]
    rw [hc]
    decide
  have hn : closedSize? (t :: r) = none := by
    obtain ⟨_, _⟩ := t
    cases hc
    rfl
  refine gives_arraySuffix ?_
  rw [hd]
  unfold sizeBefore
  rw [hn]
  refine gives_bind (gives_skipTo (TokenKind.isMark_iff.2 hc)) fun _ => ?_
  exact gives_bind (gives_expect hc) fun _ => ⟨_, rfl, rfl, rfl⟩

theorem Gives.unique {e : Except SourceError (Step n α)} {v w : α} (h : Gives e v r₁)
    (h' : Gives e w r₂) : v = w ∧ r₁ = r₂ := by
  obtain ⟨s, hs, rfl, rfl⟩ := h
  obtain ⟨s', hs', rfl, rfl⟩ := h'
  rw [hs] at hs'
  cases hs'
  exact ⟨rfl, rfl⟩

/-- An enumeration that is only named. -/
theorem gives_enumSpecifier_named (stop : Location) (sc : Scope) {name : String}
    (ht : t.kind = .ident name) (hr : Heads (· ≠ .mark .braceOpen) r) :
    Gives (enumSpecifier stop sc (t :: r))
      (match sc.context.findEnum? name with
        | some id => (.enumeration .none id, sc)
        | none => (.enumeration .none ⟨sc.context.enums.length⟩,
            { sc with context := (sc.context.declareEnum (some name)).2 })) r := by
  have hn : optionalName (t :: r) = ⟨some name, r, lt_succ_of_length_lt (length_rest_lt t r)⟩ := by
    unfold optionalName
    rw [takeIdent?_of_kind ht]
  unfold enumSpecifier
  simp only [hn, startsWith_eq_false hr, Option.bind_some]
  cases sc.context.findEnum? name with
  | some id => exact ⟨_, rfl, rfl, rfl⟩
  | none => exact ⟨_, rfl, rfl, rfl⟩

theorem startsWith_iff {m : Mark} :
    startsWith m ts = true ↔ ∃ t r, ts = t :: r ∧ t.kind = .mark m := by
  cases ts with
  | nil => simp [startsWith]
  | cons t r => simp [startsWith]

/-- A token that is no part of a declarator in front of it: a mark other than those of pointers,
arrays and functions. -/
def EndsDeclarator (k : TokenKind) : Prop :=
  ∃ m, k = .mark m ∧ m.pointerKind? = none ∧ m ≠ .parenOpen ∧ m ≠ .bracketOpen

variable [Counting]

theorem gives_suffixRun_nil
    (h : Heads (fun k => k ≠ .mark .bracketOpen ∧ k ≠ .mark .parenOpen) ts) :
    Gives (suffixRun stop sc ts) ([], sc) ts := by
  unfold suffixRun
  rw [take?_eq_none (h.imp fun _ hk => hk.1), take?_eq_none (h.imp fun _ hk => hk.2)]
  exact ⟨_, rfl, rfl, rfl⟩

theorem gives_suffixRun_array {n : ArraySize} {ds : List Derivation}
    (ht : t.kind = .mark .bracketOpen) (hn : Gives (arraySuffix stop ts) n r₁)
    (hds : Gives (suffixRun stop sc r₁) (ds, sc₁) r₂) :
    Gives (suffixRun stop sc (t :: ts)) (.array n :: ds, sc₁) r₂ := by
  unfold suffixRun
  rw [take?_of_kind ht]
  refine gives_bind hn fun _ => ?_
  exact gives_bind hds fun _ => ⟨_, rfl, rfl, rfl⟩

theorem gives_suffixRun_function {ps : List CType} {v : Bool} {ds : List Derivation}
    (ht : t.kind = .mark .parenOpen) (hf : Gives (functionSuffix stop sc ts) (ps, v, sc₁) r₁)
    (hds : Gives (suffixRun stop sc₁ r₁) (ds, sc₂) r₂) :
    Gives (suffixRun stop sc (t :: ts)) (.function ps v :: ds, sc₂) r₂ := by
  unfold suffixRun
  rw [take?_of_ne (by rw [ht]; decide), take?_of_kind ht]
  refine gives_bind hf fun _ => ?_
  exact gives_bind hds fun _ => ⟨_, rfl, rfl, rfl⟩

/-! ## 5. Parameters -/

theorem gives_functionSuffix_empty (ht : t.kind = .mark .parenClose) :
    Gives (functionSuffix stop sc (t :: r)) ([], false, sc) r := by
  obtain ⟨_, _⟩ := t
  cases ht
  unfold functionSuffix
  exact ⟨_, rfl, rfl, rfl⟩

theorem gives_functionSuffix {ps : List CType} {v : Bool} (hn : takeNoParameters? ts = none)
    (hp : Gives (parameters stop sc ts) (ps, v, sc₁) (t :: r)) (ht : t.kind = .mark .parenClose) :
    Gives (functionSuffix stop sc ts) (ps, v, sc₁) r := by
  unfold functionSuffix
  rw [hn]
  refine gives_bind hp fun _ => ?_
  exact gives_bind (gives_expect ht) fun _ => ⟨_, rfl, rfl, rfl⟩

theorem gives_parameters_ellipsis (ht : t.kind = .mark .ellipsis) :
    Gives (parameters stop sc (t :: r)) ([], true, sc) r := by
  unfold parameters
  rw [take?_of_kind ht]
  exact ⟨_, rfl, rfl, rfl⟩

theorem gives_parameters_last {specs : Specifiers} {base : CType} {d : Declarator}
    (he : take? .ellipsis ts = none) (hs : Gives (specifiers stop {} sc ts) (specs, sc₁) r₁)
    (hb : ∀ l, specs.resolve l = .ok base)
    (hd : Gives (parameterDeclarator stop sc₁ r₁) (d, sc₂) r₂) (hc : take? .comma r₂ = none) :
    Gives (parameters stop sc ts) ([d.apply base], false, sc₂) r₂ := by
  unfold parameters
  rw [he]
  refine gives_bind hs fun _ => ?_
  simp only [hb]
  refine gives_bind hd fun _ => ?_
  simp only [hc]
  exact ⟨_, rfl, rfl, rfl⟩

theorem gives_parameters_cons {specs : Specifiers} {base : CType} {d : Declarator}
    {ps : List CType} {v : Bool}
    (he : take? .ellipsis ts = none) (hs : Gives (specifiers stop {} sc ts) (specs, sc₁) r₁)
    (hb : ∀ l, specs.resolve l = .ok base)
    (hd : Gives (parameterDeclarator stop sc₁ r₁) (d, sc₂) (t :: r₂)) (hc : t.kind = .mark .comma)
    (hps : Gives (parameters stop sc₂ r₂) (ps, v, sc₃) r₃) :
    Gives (parameters stop sc ts) (d.apply base :: ps, v, sc₃) r₃ := by
  unfold parameters
  rw [he]
  refine gives_bind hs fun _ => ?_
  simp only [hb]
  refine gives_bind hd fun _ => ?_
  simp only [take?_of_kind hc]
  exact gives_bind hps fun _ => ⟨_, rfl, rfl, rfl⟩

/-! ## 6. Declarators -/

theorem gives_declarator {inner : Declarator} {ds : List Derivation}
    (hi : Gives (declaratorCore stop sc (pointerRun ts).rest) (inner, sc₁) r₁)
    (hds : Gives (suffixRun stop sc₁ r₁) (ds, sc₂) r₂) :
    Gives (declarator stop sc ts)
      (⟨inner.name, inner.derivations ++ ds ++ (pointerRun ts).value.reverse⟩, sc₂) r₂ := by
  unfold declarator
  refine gives_bind hi fun _ => ?_
  exact gives_bind hds fun _ => ⟨_, rfl, rfl, rfl⟩

/-- What a declarator consists of. -/
theorem of_gives_declarator {d : Declarator} (h : Gives (declarator stop sc ts) (d, sc₂) r₂) :
    ∃ inner sc₁ r₁ ds, Gives (declaratorCore stop sc (pointerRun ts).rest) (inner, sc₁) r₁ ∧
      Gives (suffixRun stop sc₁ r₁) (ds, sc₂) r₂ ∧
      d = ⟨inner.name, inner.derivations ++ ds ++ (pointerRun ts).value.reverse⟩ := by
  unfold declarator at h
  obtain ⟨⟨⟨inner, sc₁⟩, r₁, h₁⟩, hi, h⟩ := of_gives_bind h
  obtain ⟨⟨⟨ds, sc₂'⟩, r₂', h₂⟩, hds, h⟩ := of_gives_bind h
  obtain ⟨s, hs, hv, hr⟩ := h
  cases hs
  cases hv
  cases hr
  exact ⟨inner, sc₁, r₁, ds, ⟨_, hi, rfl, rfl⟩, ⟨_, hds, rfl, rfl⟩, rfl⟩

theorem gives_declaratorCore_name {name : String} (ht : t.kind = .ident name) :
    Gives (declaratorCore stop sc (t :: r)) (⟨some name, []⟩, sc) r := by
  have hn : takeNested? sc (t :: r) = none := by
    rw [takeNested?, take?_of_ne (by rw [ht]; simp)]
  obtain ⟨hv, hr⟩ := optionalName_of_kind (r := r) ht
  unfold declaratorCore
  rw [hn]
  exact ⟨_, rfl, congrArg (fun n => ((⟨n, []⟩ : Declarator), sc)) hv, hr⟩

theorem gives_declaratorCore_none (hn : takeNested? sc ts = none) (hi : takeIdent? ts = none) :
    Gives (declaratorCore stop sc ts) (⟨none, []⟩, sc) ts := by
  obtain ⟨hv, hr⟩ := optionalName_of_none hi
  unfold declaratorCore
  rw [hn]
  exact ⟨_, rfl, congrArg (fun n => ((⟨n, []⟩ : Declarator), sc)) hv, hr⟩

theorem gives_declaratorCore_nested {d : Declarator} {u : Token}
    (ht : t.kind = .mark .parenOpen) (hb : ∃ u ∈ ts.head?, beginsDeclarator sc u.kind = true)
    (hd : Gives (declarator stop sc ts) (d, sc₁) (u :: r)) (hu : u.kind = .mark .parenClose) :
    Gives (declaratorCore stop sc (t :: ts)) (d, sc₁) r := by
  have hn : takeNested? sc (t :: ts) = some ⟨(), ts, length_rest_lt t ts⟩ := by
    obtain ⟨u, hu, hk⟩ := hb
    have hany : (ts.head?.any fun t => beginsDeclarator sc t.kind) = true := by
      rw [Option.mem_def.1 hu]
      exact hk
    simp only [takeNested?, take?_of_kind ht, hany, ↓reduceIte]
  unfold declaratorCore
  rw [hn]
  refine gives_bind hd fun _ => ?_
  exact gives_bind (gives_expect hu) fun _ => ⟨_, rfl, rfl, rfl⟩

/-- A declarator that is missing is the one that a declarator without tokens would be. -/
theorem gives_declarator_missing (h : Heads EndsDeclarator ts) :
    Gives (declarator stop sc ts) (⟨none, []⟩, sc) ts := by
  obtain ⟨hv, hr⟩ := pointerRun_of_heads (h.imp fun k ⟨m, hk, hm, _⟩ => by
    rw [hk]; simp [isPointerKind, hm])
  have hn : takeNested? sc ts = none := by
    rw [takeNested?, take?_eq_none (h.imp fun k ⟨m, hk, _, hm, _⟩ => by rw [hk]; simpa using hm)]
  have hi : takeIdent? ts = none :=
    takeIdent?_eq_none (h.imp fun k ⟨m, hk, _⟩ => by rw [hk]; simp)
  have hs : Gives (suffixRun stop sc ts) ([], sc) ts :=
    gives_suffixRun_nil (h.imp fun k ⟨m, hk, _, hp, hb⟩ => by
      rw [hk]; simpa using ⟨hb, hp⟩)
  have hcore : Gives (declaratorCore stop sc (pointerRun ts).rest) (⟨none, []⟩, sc) ts := by
    rw [hr]
    exact gives_declaratorCore_none hn hi
  have := gives_declarator hcore hs
  rwa [hv] at this

/-- A parameter has the declarator that stands there, even if none does. -/
theorem gives_parameterDeclarator {d : Declarator} (h : Gives (declarator stop sc ts) (d, sc₁) r) :
    Gives (parameterDeclarator stop sc ts) (d, sc₁) r := by
  unfold parameterDeclarator
  split
  · rename_i hs
    have hm : Gives (declarator stop sc ts) (⟨none, []⟩, sc) ts := by
      refine gives_declarator_missing ?_
      rw [Bool.or_eq_true, startsWith_iff, startsWith_iff] at hs
      rcases hs with ⟨t, r, rfl, ht⟩ | ⟨t, r, rfl, ht⟩
      · exact heads_cons.2 ⟨_, ht, by decide⟩
      · exact heads_cons.2 ⟨_, ht, by decide⟩
    obtain ⟨hv, hr⟩ := h.unique hm
    exact ⟨_, rfl, hv.symm, hr.symm⟩
  · exact h

/-- A member has the declarator that stands there, even if none does. -/
theorem gives_memberDeclarator {d : Declarator} (h : Gives (declarator stop sc ts) (d, sc₁) r) :
    Gives (memberDeclarator stop sc ts) (d, sc₁) r := by
  unfold memberDeclarator
  split
  · rename_i hs
    have hm : Gives (declarator stop sc ts) (⟨none, []⟩, sc) ts := by
      obtain ⟨t, r, rfl, ht⟩ := startsWith_iff.1 hs
      exact gives_declarator_missing (heads_cons.2 ⟨_, ht, by decide⟩)
    obtain ⟨hv, hr⟩ := h.unique hm
    exact ⟨_, rfl, hv.symm, hr.symm⟩
  · exact h

/-! ## 7. Specifiers -/

theorem gives_specifiers_add {acc : Specifiers} (acc' : Specifiers) {v : Specifiers × Scope}
    (ha : acc.add? sc t.kind = some acc') (h : Gives (specifiers stop acc' sc ts) v r) :
    Gives (specifiers stop acc sc (t :: ts)) v r := by
  unfold specifiers
  simp only [ha]
  exact gives_bind h fun _ => ⟨_, rfl, rfl, rfl⟩

theorem gives_specifiers_words {ws : List BuiltinWord} {W ts rest : List Token}
    {acc : Specifiers} {v : Specifiers × Scope}
    (hW : W.map Token.kind = ws.map fun w => .keyword (.builtin w))
    (h : Gives (specifiers stop { acc with words := ws.reverse ++ acc.words } sc ts) v rest) :
    Gives (specifiers stop acc sc (W ++ ts)) v rest := by
  induction ws generalizing W acc with
  | nil =>
    rw [List.map_nil, List.map_eq_nil_iff] at hW
    subst hW
    exact h
  | cons w ws ih =>
    rw [List.map_cons, List.map_eq_cons_iff] at hW
    obtain ⟨t, W, rfl, ht, hW⟩ := hW
    refine gives_specifiers_add { acc with words := w :: acc.words }
      (by rw [ht]; rfl) (ih hW ?_)
    rw [List.reverse_cons, List.append_assoc] at h
    exact h

/-- A token that begins no specifier behind those in `acc`. -/
def EndsSpecifiers (acc : Specifiers) : TokenKind → Prop
  | .mark _ => True
  | .ident _ => acc.named.isSome = true ∨ Counting.isEmpty acc.words = false
  | _ => False

theorem gives_specifiers_end {acc : Specifiers} (h : Heads (EndsSpecifiers acc) ts) :
    Gives (specifiers stop acc sc ts) (acc, sc) ts := by
  cases ts with
  | nil =>
    unfold specifiers
    exact ⟨_, rfl, rfl, rfl⟩
  | cons t r =>
    obtain ⟨k, l⟩ := t
    have hk := heads_cons.1 h
    have hadd : acc.add? sc k = none := by
      cases k with
      | mark m => rfl
      | ident name =>
        have hif : ¬(acc.named.isNone ∧ Counting.isEmpty acc.words) := by
          rintro ⟨hn, hw⟩
          rcases hk with hs | hs
          · rw [Option.isNone_iff_eq_none] at hn
            rw [hn] at hs
            cases hs
          · rw [hw] at hs
            cases hs
        rw [Specifiers.add?, if_neg hif]
      | _ => cases hk
    unfold specifiers
    simp only [hadd]
    cases k with
    | mark m => exact ⟨_, rfl, rfl, rfl⟩
    | ident name => exact ⟨_, rfl, rfl, rfl⟩
    | _ => cases hk

/-- A token that is no specifier ends them. -/
theorem gives_specifiers_stop {acc : Specifiers} {t : Token} (r : List Token)
    (hadd : acc.add? sc t.kind = none) (hrecord : ∀ key, t.kind ≠ .keyword (.record key))
    (henum : t.kind ≠ .keyword .enumeration) :
    Gives (specifiers stop acc sc (t :: r)) (acc, sc) (t :: r) := by
  unfold specifiers
  simp only [hadd]
  exact ⟨_, rfl, rfl, rfl⟩

/-- A record that is only named. -/
theorem gives_recordSpecifier_named {key : RecordKey} {name : String} {l : Location}
    {id : RecordId} (ht : t.kind = .ident name)
    (hr : Heads (fun k => k ≠ .mark .braceOpen ∧ k ≠ .mark .colon) r)
    (hid : sc.context.findRecord? name = some id) :
    Gives (recordSpecifier stop key l sc (t :: r))
      (.record .none id, nameClass sc key (some name) id) r := by
  have hn : optionalName (t :: r) = ⟨some name, r, lt_succ_of_length_lt (length_rest_lt t r)⟩ := by
    unfold optionalName
    rw [takeIdent?_of_kind ht]
  unfold recordSpecifier
  simp only [hn, startsWith_eq_false (hr.imp fun _ h => h.1),
    startsWith_eq_false (hr.imp fun _ h => h.2), tagged, hid]
  exact ⟨_, rfl, rfl, rfl⟩

theorem gives_specifiers_record {acc : Specifiers} {key : RecordKey} {type : CType}
    {v : Specifiers × Scope} (ht : t.kind = .keyword (.record key)) (hn : acc.named = none)
    (hrec : Gives (recordSpecifier stop key t.location sc ts) (type, sc₁) r₁)
    (h : Gives (specifiers stop { acc with named := some type } sc₁ r₁) v r) :
    Gives (specifiers stop acc sc (t :: ts)) v r := by
  obtain ⟨k, l⟩ := t
  cases ht
  unfold specifiers
  simp only [Specifiers.add?]
  refine gives_bind hrec fun _ => ?_
  have href : refuseSecond stop acc r₁ = .ok () := by
    rw [refuseSecond, hn]
    rfl
  simp only [href]
  exact gives_bind h fun _ => ⟨_, rfl, rfl, rfl⟩

theorem gives_specifiers_enum {acc : Specifiers} {type : CType} {v : Specifiers × Scope}
    (ht : t.kind = .keyword .enumeration) (hn : acc.named = none)
    (henum : Gives (enumSpecifier stop sc ts) (type, sc₁) r₁)
    (h : Gives (specifiers stop { acc with named := some type } sc₁ r₁) v r) :
    Gives (specifiers stop acc sc (t :: ts)) v r := by
  obtain ⟨k, l⟩ := t
  cases ht
  unfold specifiers
  simp only [Specifiers.add?]
  refine gives_bind henum fun _ => ?_
  have href : refuseSecond stop acc r₁ = .ok () := by
    rw [refuseSecond, hn]
    rfl
  simp only [href]
  exact gives_bind h fun _ => ⟨_, rfl, rfl, rfl⟩

end TypeLedger
