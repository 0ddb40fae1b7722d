import TypeLedger.Proofs.Grammar.Fronts

/-!
# What stands behind a declarator has no influence

* `Alike`: of two steps on texts with one front and two tails, the second finds what the first one
  finds, and leaves texts of this kind again. The scope has grown.
* The parts of the grammar that call each other read such texts alike: the proofs go along the
  recursion. Those that stand in front of a declarator, or have a list of their own, do so while a
  group is open.
* `gives_declarator_append`: a declarator is read in front of any tail as it is read by itself.
-/

namespace TypeLedger

variable {α β : Type} {m n m' n' : Nat} {C : String → Prop} {x y ts us : List Token}
  {groups groups' : List Mark} {stop : Location} {sc sc₁ : Scope}

/-! ## 1. Steps that find the same -/

/-- If the first step succeeds, so does the second one. It finds the same, the scope has grown from
`sc` to that of what is found, and the texts that the two leave have one front again. -/
def Alike (C : String → Prop) (x y : List Token) (groups : List Mark) (sc : Scope)
    (scope : α → Scope) (e : Except SourceError (Step m α)) (e' : Except SourceError (Step n α)) :
    Prop :=
  AgreesUpTo (fun v v' => v' = v ∧ sc.Grows C (scope v)) (Shares C x y groups) e e'

variable {scope : α → Scope} {scope' : β → Scope}

theorem alike_ok {v : α} {r r' : List Token} {hlt : r.length < m} {hlt' : r'.length < n}
    (hv : sc.Grows C (scope v)) (hr : Shares C x y groups r r') :
    Alike C x y groups sc scope (.ok ⟨v, r, hlt⟩) (.ok ⟨v, r', hlt'⟩) :=
  agrees_ok ⟨rfl, hv⟩ hr

/-- A step, and what follows it. -/
theorem alike_bind {e : Except SourceError (Step m α)} {e' : Except SourceError (Step n α)}
    {f : Step m α → Except SourceError (Step m' β)} {f' : Step n α → Except SourceError (Step n' β)}
    (he : Alike C x y groups sc₁ scope e e')
    (hf : ∀ v r hlt r' hlt', sc₁.Grows C (scope v) → Shares C x y groups r r' →
      Alike C x y groups' sc scope' (f ⟨v, r, hlt⟩) (f' ⟨v, r', hlt'⟩)) :
    Alike C x y groups' sc scope' (e >>= f) (e' >>= f') :=
  agrees_bind_upTo he fun v r hlt _ r' hlt' ⟨hv, hg⟩ hr => by
    subst hv
    exact hf _ r hlt r' hlt' hg hr

/-- An enumeration, and the scope that has it. -/
theorem alike_enumSpecifier (h : Shares C x y groups ts us) :
    Alike C x y groups sc Prod.snd (enumSpecifier stop sc ts) (enumSpecifier stop sc us) := by
  obtain ⟨hv, hr⟩ := h.optionalName
  unfold enumSpecifier
  dsimp only
  rw [hv, hr.startsWith_eq fun _ => rfl]
  cases hid : (optionalName ts).value.bind sc.context.findEnum? with
  | some id =>
    simp only
    split
    · exact agrees_bind hr.agrees_skipBody fun _ _ _ _ _ hr₂ => alike_ok (.refl C sc) hr₂
    · exact alike_ok (.refl C sc) hr
  | none =>
    have hgrows : sc.Grows C
        { sc with context := (sc.context.declareEnum (optionalName ts).value).2 } :=
      Scope.grows_declareEnum fun n hn => by rwa [hn] at hid
    simp only
    split
    · exact agrees_bind hr.agrees_skipBody fun _ _ _ _ _ hr₂ => alike_ok hgrows hr₂
    · exact alike_ok hgrows hr

/-! ## 2. The recursive part -/

variable [Counting]

theorem alike_memberDeclarator (h : Shares C x y groups ts us)
    (hd : Alike C x y groups sc Prod.snd (declarator stop sc ts) (declarator stop sc us)) :
    Alike C x y groups sc Prod.snd (memberDeclarator stop sc ts) (memberDeclarator stop sc us) := by
  unfold memberDeclarator
  rw [h.startsWith_eq fun _ => rfl]
  split
  · exact alike_ok (.refl C sc) h
  · exact hd

theorem alike_parameterDeclarator (h : Shares C x y groups ts us) (hne : groups ≠ [])
    (hd : Alike C x y groups sc Prod.snd (declarator stop sc ts) (declarator stop sc us)) :
    Alike C x y groups sc Prod.snd (parameterDeclarator stop sc ts)
      (parameterDeclarator stop sc us) := by
  unfold parameterDeclarator
  rw [h.startsWith_eq (absurd · hne), h.startsWith_eq (absurd · hne)]
  split
  · exact alike_ok (.refl C sc) h
  · exact hd

theorem alike_memberGroup {base : CType} {access : Option Access} (h : Shares C x y groups ts us)
    (hne : groups ≠ [])
    (hlist : Alike C x y groups sc Prod.snd (memberList stop base access sc ts)
      (memberList stop base access sc us)) :
    Alike C x y groups sc Prod.snd (memberGroup stop base access sc ts)
      (memberGroup stop base access sc us) := by
  unfold memberGroup
  rw [h.startsWith_eq (absurd · hne)]
  split
  · exact alike_ok (.refl C sc) h
  · exact hlist

/-- Behind a record or an enumeration, the `specifiers` go on. -/
theorem alike_named {acc : Specifiers} {type : CType} (hsc : sc.Grows C sc₁)
    (hspecs : Alike C x y groups sc₁ Prod.snd
      (specifiers stop { acc with named := some type } sc₁ ts)
      (specifiers stop { acc with named := some type } sc₁ us))
    {f : Reads ts (Specifiers × Scope) → Except SourceError (Step m (Specifiers × Scope))}
    {f' : Reads us (Specifiers × Scope) → Except SourceError (Step n (Specifiers × Scope))}
    (hf : ∀ v r hlt r' hlt', sc.Grows C v.2 → Shares C x y groups r r' →
      Alike C x y groups sc Prod.snd (f ⟨v, r, hlt⟩) (f' ⟨v, r', hlt'⟩)) :
    Alike C x y groups sc Prod.snd
      (refuseSecond stop acc ts >>= fun _ =>
        specifiers stop { acc with named := some type } sc₁ ts >>= f)
      (refuseSecond stop acc us >>= fun _ =>
        specifiers stop { acc with named := some type } sc₁ us >>= f') := by
  refine agrees_check (fun c hc => ?_) fun _ =>
    alike_bind hspecs fun v r hlt r' hlt' hv hr => hf v r hlt r' hlt' (hsc.trans hv) hr
  unfold refuseSecond at hc ⊢
  split at hc
  · cases hc
  · rename_i hn
    rw [if_neg hn]

mutual

theorem alike_specifiers (acc : Specifiers) (sc : Scope) {groups : List Mark} {ts us : List Token}
    (h : Shares C x y groups ts us) (hne : groups ≠ []) :
    Alike C x y groups sc Prod.snd (specifiers stop acc sc ts) (specifiers stop acc sc us) := by
  have h' := h
  obtain ⟨k, l, r, r', groups', rfl, rfl, hg, hc, h⟩ := h.cases_cons hne
  unfold specifiers
  cases hadd : acc.add? sc k with
  | some acc' =>
    have hb : k.isBracket = false := by
      cases k with
      | mark m => cases hadd
      | _ => rfl
    rw [TokenKind.groups?_of_not_bracket hb] at hg
    cases hg
    dsimp only
    exact alike_bind (alike_specifiers acc' sc h hne) fun _ _ _ _ _ hv hr₁ => alike_ok hv hr₁
  | none =>
    dsimp only
    split
    · rename_i key
      cases hg
      have hkey : key = .classKey → ∀ n, (optionalName r).value = some n → C n := by
        rintro rfl
        exact hc rfl
      refine alike_bind (alike_recordSpecifier key l sc h hne hkey)
        fun (type, sc₁) r₁ h₁ r₁' _ hv hr₁ => ?_
      exact alike_named hv (alike_specifiers _ sc₁ hr₁ hne)
        fun _ _ _ _ _ hv hr₂ => alike_ok hv hr₂
    · cases hg
      refine alike_bind (alike_enumSpecifier h) fun (type, sc₁) r₁ h₁ r₁' _ hv hr₁ => ?_
      exact alike_named hv (alike_specifiers _ sc₁ hr₁ hne)
        fun _ _ _ _ _ hv hr₂ => alike_ok hv hr₂
    · exact alike_ok (.refl C sc) h'
termination_by (ts.length, 0)
decreasing_by all_goals subst_vars; simp only [Prod.lex_def, List.length_cons]; omega

theorem alike_recordSpecifier (key : RecordKey) (l : Location) (sc : Scope) {groups : List Mark}
    {ts us : List Token} (h : Shares C x y groups ts us) (hne : groups ≠ [])
    (hkey : key = .classKey → ∀ n, (optionalName ts).value = some n → C n) :
    Alike C x y groups sc Prod.snd (recordSpecifier stop key l sc ts)
      (recordSpecifier stop key l sc us) := by
  have h₁ := (optionalName ts).short
  obtain ⟨hv, hr⟩ := h.optionalName
  unfold recordSpecifier
  dsimp only
  rw [hv, hr.startsWith_eq fun _ => rfl, hr.startsWith_eq fun _ => rfl]
  split
  · exact agrees_error
  rename_i id sc₁ htag
  obtain ⟨hgrows, hid⟩ := Scope.grows_tagged htag
  have hsc₂ := hgrows.trans (Scope.grows_nameClass hid hkey)
  split
  · refine agrees_bind (hr.agrees_optionalBases hne key) fun bases r₂ h₂ r₂' _ hr₂ => ?_
    refine agrees_bind (hr₂.agrees_expect (absurd · hne) rfl) fun _ r₃ h₃ r₃' _ hr₃ => ?_
    have hlt : r₃.length < r₂.length := h₃
    refine alike_bind (alike_members key key.access _ hr₃ (List.cons_ne_nil _ _))
      fun (list, sc₃) r₄ _ r₄' _ hsc₃ hr₄ => ?_
    refine agrees_bind (hr₄.agrees_expect nofun rfl) fun _ _ _ _ _ hr₅ => alike_ok ?_ hr₅
    exact (hsc₂.trans hsc₃).trans (Scope.grows_completeRecord id list bases)
  · exact alike_ok hsc₂ hr
termination_by (ts.length, 0)
decreasing_by all_goals simp only [Prod.lex_def]; omega

theorem alike_members (key : RecordKey) (access : Option Access) (sc : Scope) {groups : List Mark}
    {ts us : List Token} (h : Shares C x y groups ts us) (hne : groups ≠ []) :
    Alike C x y groups sc Prod.snd (members stop key access sc ts)
      (members stop key access sc us) := by
  have h' := h
  obtain ⟨k, l, r, r', groups', rfl, rfl, hg, -, h⟩ := h.cases_cons hne
  unfold members
  dsimp only
  split
  · exact alike_ok (.refl C sc) h'
  · cases hg
    refine agrees_bind (h.agrees_labelColon key l) fun _ r₁ h₁ r₁' _ hr₁ => ?_
    have hlt : r₁.length < r.length := h₁
    exact alike_bind (alike_members key _ sc hr₁ hne) fun _ _ _ _ _ hv hr₂ => alike_ok hv hr₂
  · cases hg
    exact alike_bind (alike_members key access sc h hne) fun _ _ _ _ _ hv hr₂ => alike_ok hv hr₂
  · refine alike_bind (alike_specifiers {} sc h' hne) fun (specs, sc₁) r₁ h₁ r₁' _ hsc₁ hr₁ => ?_
    dsimp only
    refine agrees_check (fun _ hb => hb) fun base => ?_
    refine alike_bind (alike_memberGroup hr₁ hne (alike_memberList base access sc₁ hr₁ hne))
      fun (own, sc₂) r₂ h₂ r₂' _ hsc₂ hr₂ => ?_
    refine agrees_bind (hr₂.agrees_expect (absurd · hne) rfl) fun _ r₃ h₃ r₃' _ hr₃ => ?_
    have hlt : r₃.length < r₂.length := h₃
    exact alike_bind (alike_members key access sc₂ hr₃ hne)
      fun _ _ _ _ _ hsc₃ hr₄ => alike_ok ((hsc₁.trans hsc₂).trans hsc₃) hr₄
termination_by (ts.length, 5)
decreasing_by all_goals subst_vars; simp only [Prod.lex_def, List.length_cons, true_and] at *; omega

theorem alike_memberList (base : CType) (access : Option Access) (sc : Scope) {groups : List Mark}
    {ts us : List Token} (h : Shares C x y groups ts us) (hne : groups ≠ []) :
    Alike C x y groups sc Prod.snd (memberList stop base access sc ts)
      (memberList stop base access sc us) := by
  unfold memberList
  refine alike_bind (alike_memberDeclarator h (alike_declarator sc h))
    fun (d, sc₁) r₁ h₁ r₁' _ hsc₁ hr₁ => ?_
  refine agrees_bind (hr₁.agrees_optionalWidth hne) fun width r₂ h₂ r₂' _ hr₂ => ?_
  dsimp only
  rcases hr₂.take? (m := .comma) (absurd · hne) with ⟨hc, hc'⟩ | ⟨r₃, r₃', h₃, _, hc, hc', hr₃⟩
  · rw [hc, hc']
    exact alike_ok hsc₁ hr₂
  · rw [hc, hc']
    exact alike_bind (alike_memberList base access sc₁ (hr₃ _ rfl) hne)
      fun _ _ _ _ _ hsc₂ hr₄ => alike_ok (hsc₁.trans hsc₂) hr₄
termination_by (ts.length, 3)
decreasing_by all_goals simp only [Prod.lex_def, true_and]; omega

theorem alike_declarator (sc : Scope) {groups : List Mark} {ts us : List Token}
    (h : Shares C x y groups ts us) :
    Alike C x y groups sc Prod.snd (declarator stop sc ts) (declarator stop sc us) := by
  have h₁ := (pointerRun ts).short
  obtain ⟨hv, hr₁⟩ := h.pointerRun
  unfold declarator
  refine alike_bind (alike_declaratorCore sc hr₁) fun (inner, sc₁) r₂ h₂ r₂' _ hsc₁ hr₂ => ?_
  refine alike_bind (alike_suffixRun sc₁ hr₂) fun (ds, sc₂) r₃ _ r₃' _ hsc₂ hr₃ => ?_
  dsimp only
  rw [hv]
  exact alike_ok (hsc₁.trans hsc₂) hr₃
termination_by (ts.length, 1)
decreasing_by all_goals simp only [Prod.lex_def]; omega

theorem alike_declaratorCore (sc : Scope) {groups : List Mark} {ts us : List Token}
    (h : Shares C x y groups ts us) :
    Alike C x y groups sc Prod.snd (declaratorCore stop sc ts) (declaratorCore stop sc us) := by
  unfold declaratorCore
  rcases h.takeNested? sc with ⟨hn, hn'⟩ | ⟨r₁, r₁', h₁, _, hn, hn', hr₁⟩
  · rw [hn, hn']
    obtain ⟨hv, hr⟩ := h.optionalName
    dsimp only
    rw [hv]
    exact alike_ok (.refl C sc) hr
  · rw [hn, hn']
    refine alike_bind (alike_declarator sc hr₁) fun _ r₂ _ r₂' _ hv hr₂ => ?_
    exact agrees_bind (hr₂.agrees_expect nofun rfl) fun _ _ _ _ _ hr₃ => alike_ok hv hr₃
termination_by (ts.length, 0)
decreasing_by all_goals simp only [Prod.lex_def]; omega

theorem alike_suffixRun (sc : Scope) {groups : List Mark} {ts us : List Token}
    (h : Shares C x y groups ts us) :
    Alike C x y groups sc Prod.snd (suffixRun stop sc ts) (suffixRun stop sc us) := by
  unfold suffixRun
  rcases h.take? (m := .bracketOpen) (fun _ => rfl) with ⟨hb, hb'⟩ | ⟨r₁, r₁', h₁, _, hb, hb', hr₁⟩
  · rw [hb, hb']
    dsimp only
    rcases h.take? (m := .parenOpen) (fun _ => rfl) with ⟨hp, hp'⟩ | ⟨r₁, r₁', h₁, _, hp, hp', hr₁⟩
    · rw [hp, hp']
      exact alike_ok (.refl C sc) h
    · rw [hp, hp']
      refine alike_bind (alike_functionSuffix sc (hr₁ _ rfl))
        fun (params, variadic, sc₁) r₂ h₂ r₂' _ hsc₁ hr₂ => ?_
      exact alike_bind (alike_suffixRun sc₁ hr₂)
        fun _ _ _ _ _ hsc₂ hr₃ => alike_ok (hsc₁.trans hsc₂) hr₃
  · rw [hb, hb']
    refine agrees_bind (hr₁ _ rfl).agrees_arraySuffix fun size r₂ h₂ r₂' _ hr₂ => ?_
    exact alike_bind (alike_suffixRun sc hr₂) fun _ _ _ _ _ hv hr₃ => alike_ok hv hr₃
termination_by (ts.length, 0)
decreasing_by all_goals simp only [Prod.lex_def]; omega

theorem alike_functionSuffix (sc : Scope) {groups : List Mark} {ts us : List Token}
    (h : Shares C x y (.parenClose :: groups) ts us) :
    Alike C x y groups sc (fun v => v.2.2) (functionSuffix stop sc ts)
      (functionSuffix stop sc us) := by
  unfold functionSuffix
  rcases h.takeNoParameters? with ⟨hn, hn'⟩ | ⟨_, r₁, r₁', _, _, hn, hn', hr₁⟩
  · rw [hn, hn']
    refine alike_bind (alike_parameters sc h (List.cons_ne_nil _ _)) fun _ r₁ _ r₁' _ hv hr₁ => ?_
    exact agrees_bind (hr₁.agrees_expect nofun rfl) fun _ _ _ _ _ hr₂ => alike_ok hv hr₂
  · rw [hn, hn']
    exact alike_ok (.refl C sc) hr₁
termination_by (ts.length, 4)
decreasing_by all_goals simp only [Prod.lex_def, true_and]; omega

theorem alike_parameters (sc : Scope) {groups : List Mark} {ts us : List Token}
    (h : Shares C x y groups ts us) (hne : groups ≠ []) :
    Alike C x y groups sc (fun v => v.2.2) (parameters stop sc ts) (parameters stop sc us) := by
  have hplace : place stop us = place stop ts := by
    obtain ⟨k, l, r, r', groups', rfl, rfl, -⟩ := h.cases_cons hne
    rfl
  unfold parameters
  rw [hplace]
  rcases h.take? (m := .ellipsis) (fun _ => rfl) with ⟨he, he'⟩ | ⟨r₁, r₁', _, _, he, he', hr₁⟩
  · rw [he, he']
    refine alike_bind (alike_specifiers {} sc h hne) fun (specs, sc₁) r₁ h₁ r₁' _ hsc₁ hr₁ => ?_
    refine agrees_check (fun _ hb => hb) fun base => ?_
    refine alike_bind (alike_parameterDeclarator hr₁ hne (alike_declarator sc₁ hr₁))
      fun (d, sc₂) r₂ h₂ r₂' _ hsc₂ hr₂ => ?_
    dsimp only
    rcases hr₂.take? (m := .comma) (absurd · hne) with ⟨hc, hc'⟩ | ⟨r₃, r₃', h₃, _, hc, hc', hr₃⟩
    · rw [hc, hc']
      exact alike_ok (hsc₁.trans hsc₂) hr₂
    · rw [hc, hc']
      exact alike_bind (alike_parameters sc₂ (hr₃ _ rfl) hne)
        fun _ _ _ _ _ hsc₃ hr₄ => alike_ok ((hsc₁.trans hsc₂).trans hsc₃) hr₄
  · rw [he, he']
    exact alike_ok (.refl C sc) (hr₁ _ rfl)
termination_by (ts.length, 3)
decreasing_by all_goals simp only [Prod.lex_def, true_and]; omega

end

/-! ## 3. Declarators -/

/-- **A declarator is read in front of any tail as it is read by itself** by `declarator`, and
leaves a scope to which the one before `Grows`. -/
theorem gives_declarator_append {D X : List Token} {v : Declarator × Scope}
    (hD : nested TokenKind.inDeclarator [] (D.map Token.kind) = true)
    (hX : Heads (·.endsItem = true) X) (h : Gives (declarator stop sc D) v []) :
    Gives (declarator stop sc (D ++ X)) v X ∧ sc.Grows (Mentions D .classKey) v.2 := by
  obtain ⟨s, hs, rfl, hr⟩ := h
  have hshares : Shares (Mentions D .classKey) [] X [] (D ++ []) (D ++ X) :=
    shares_of_nested nofun hX hD fun _ hn => hn
  rw [List.append_nil] at hshares
  obtain ⟨v', r', hg, ⟨rfl, hgrows⟩, hshare⟩ := alike_declarator sc hshares s hs
  rw [hr] at hshare
  cases hshare with
  | tails => exact ⟨hg, hgrows⟩

/-- A `declarator` that is read in front of a tail is read to its end, or it goes on with a token of
its own. -/
theorem of_gives_declarator_append {D X r : List Token} {v : Declarator × Scope}
    (hD : nested TokenKind.inDeclarator [] (D.map Token.kind) = true)
    (hX : Heads (·.endsItem = true) X) (h : Gives (declarator stop sc (D ++ X)) v r) :
    (r = X ∧ Gives (declarator stop sc D) v []) ∨
      ∃ t r', r = t :: r' ∧ t.kind.inDeclarator = true := by
  obtain ⟨s, hs, rfl, rfl⟩ := h
  have hshares : Shares (Mentions D .classKey) X [] [] (D ++ X) (D ++ []) :=
    shares_of_nested hX nofun hD fun _ hn => hn
  rw [List.append_nil] at hshares
  obtain ⟨v', r', hg, ⟨rfl, -⟩, hshare⟩ := alike_declarator sc hshares s hs
  rcases hshare.cases with ⟨-, hX, rfl⟩ | ⟨t, r, hr, hi⟩
  · exact .inl ⟨hX, hg⟩
  · exact .inr ⟨t, r, hr, hi rfl⟩

end TypeLedger
