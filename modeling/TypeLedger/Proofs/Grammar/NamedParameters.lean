import TypeLedger.Proofs.Grammar.ReadBack
import TypeLedger.Proofs.Printing.Lines

/-!
# Reading declarations back, with names for parameters or without

* `CType.Words`: tokens are a declarator of a type, where parameters may have names. Those that
  `declaratorKinds` gives have none.
* `reads_parameters`: the tokens of parameters are read as the parameters, whatever their names.
* `reads_around`: the tokens around a declarator are read as what they wrap it in. The induction is
  on the type, from its outermost node, next to the name, to its leaf.
* `reads_words` and `reads_declaration`: the tokens of a declaration are read as the declared type.
-/

namespace TypeLedger

variable {stop : Location} {sc sc₁ sc₂ : Scope} {l : Labels} {r : RecordId → Prop}
  {e : EnumId → Prop}

/-! ## 1. Declarators whose parameters may have names -/

namespace CType

mutual

/-- The tokens `D` are a declarator of the type around the tokens `X`. Parameters may have names,
but not the `void` that stands for no parameters. -/
def Words (l : Labels) : CType → List TokenKind → List TokenKind → Prop
  | pointer q k t, X, D => Words l t (pointerKinds t.isTight k q X) D
  | array _ n t, X, D => Words l t (X ++ arrayKinds n) D
  | function _ t ps v, X, D =>
    ∃ kss, ParameterWords l ps kss ∧
      (v = false → ps = [.builtin .none "void"] → kss = kindsAll l ps) ∧
      Words l t (X ++ functionKinds kss v) D
  | _, X, D => D = X

/-- The tokens `kss` are the declarations of parameters. -/
def ParameterWords (l : Labels) : List CType → List (List TokenKind) → Prop
  | [], kss => kss = []
  | t :: ts, kss =>
    ∃ name D rest, Words l t (nameKinds name) D ∧ ParameterWords l ts rest ∧
      kss = (specifierKinds l t.leaf ++ D) :: rest

end

mutual

/-- The declarator without names for parameters. -/
theorem words_declaratorKinds (l : Labels) :
    ∀ (t : CType) (X : List TokenKind), t.Words l X (t.declaratorKinds l X)
  | null _, _ | builtin _ _, _ | record _ _, _ | enumeration _ _, _ | synonym _ _ _, _
  | complex _ _, _ | vector _ _ _, _ | dependent _ _, _ => rfl
  | pointer _ _ t, _ | array _ _ t, _ => words_declaratorKinds l t _
  | function _ t ps _, _ =>
    ⟨kindsAll l ps, parameterWords_kindsAll l ps, fun _ _ => rfl, words_declaratorKinds l t _⟩

theorem parameterWords_kindsAll (l : Labels) :
    ∀ ts : List CType, ParameterWords l ts (kindsAll l ts)
  | [] => rfl
  | t :: ts => ⟨none, _, _, words_declaratorKinds l t [], parameterWords_kindsAll l ts, rfl⟩

end

theorem ParameterWords.ne_nil {ps : List CType} {kss : List (List TokenKind)}
    (h : ParameterWords l ps kss) (hne : ps ≠ []) : kss ≠ [] := by
  cases ps with
  | nil => exact absurd rfl hne
  | cons p ps =>
    obtain ⟨name, D, rest, -, -, rfl⟩ := h
    exact List.cons_ne_nil _ _

/-! ## 2. The first tokens of a declarator -/

variable {t : CType} {X D : List TokenKind}

/-- A declarator begins as the tokens that it wraps, or with a mark of its own. -/
theorem Words.head? (ht : t.Legible r e) {k : TokenKind} (h : t.Words l X D) (hk : k ∈ D.head?) :
    k ∈ X.head? ∨ OpensDeclarator k := by
  induction ht generalizing X with
  | builtin _ | record _ | enumeration _ =>
    obtain rfl : D = X := h
    exact .inl hk
  | @pointer q kind t hkind _ _ ih =>
    rcases ih h with h | h
    · exact .inr (opensDeclarator_pointerKinds hkind _ k h)
    · exact .inr h
  | array _ ih =>
    rcases ih h with h | h
    · rcases head?_append_cases h with h | h
      · exact .inl h
      · obtain rfl : .mark .bracketOpen = k := by simpa [arrayKinds] using h
        exact .inr ⟨_, rfl, .inr (.inr rfl)⟩
    · exact .inr h
  | function _ _ ih _ =>
    obtain ⟨kss, -, -, h⟩ := h
    rcases ih h with h | h
    · rcases head?_append_cases h with h | h
      · exact .inl h
      · obtain rfl : .mark .parenOpen = k := by simpa [functionKinds] using h
        exact .inr ⟨_, rfl, .inr (.inl rfl)⟩
    · exact .inr h

theorem Words.ne_nil (ht : t.Legible r e) (h : t.Words l X D) (hX : X ≠ []) : D ≠ [] := by
  induction ht generalizing X with
  | builtin _ | record _ | enumeration _ =>
    obtain rfl : D = X := h
    exact hX
  | @pointer q kind t _ _ _ ih =>
    refine ih h ?_
    cases htight : t.isTight <;> simp [pointerKinds]
  | array _ ih => exact ih h (by simp [arrayKinds])
  | function _ _ ih _ =>
    obtain ⟨kss, -, -, h⟩ := h
    exact ih h (by simp [functionKinds])

/-- Only a type that no declarator wraps has an empty declarator. -/
theorem Words.hasDeclarator_eq_false (ht : t.Legible r e) (h : t.Words l X []) :
    t.hasDeclarator = false := by
  cases ht with
  | builtin _ | record _ | enumeration _ => rfl
  | @pointer q kind t _ _ ht =>
    refine absurd rfl (Words.ne_nil ht h ?_)
    cases htight : t.isTight <;> simp [pointerKinds]
  | array ht => exact absurd rfl (Words.ne_nil ht h (by simp [arrayKinds]))
  | function ht _ =>
    obtain ⟨kss, -, -, h⟩ := h
    exact absurd rfl (Words.ne_nil ht h (by simp [functionKinds]))

/-- An empty declarator is that of no name. -/
theorem Words.name_eq_none (ht : t.Legible r e) {name : Option String}
    (h : t.Words l (nameKinds name) []) : name = none := by
  cases name with
  | none => rfl
  | some n => exact absurd rfl (Words.ne_nil ht h (by simp [nameKinds]))

/-- A declarator around a name, or around nothing, begins with the name or with a mark of its own.
-/
theorem Words.head?_name (ht : t.Legible r e) {name : Option String} {k : TokenKind}
    (h : t.Words l (nameKinds name) D) (hk : k ∈ D.head?) :
    (∃ n, name = some n ∧ k = .ident n) ∨ OpensDeclarator k := by
  rcases h.head? ht hk with hk | hk
  · cases name with
    | none => cases hk
    | some n => exact .inl ⟨n, rfl, (Option.some.inj hk).symm⟩
  · exact .inr hk

end CType

/-! ## 3. Parameters -/

/-- The tokens of a declaration around the declarator tokens `X` are read as specifiers and a
declarator that declare a type. -/
structure ReadsAs (l : Labels) (sc : Scope) (t : CType) (X : List TokenKind) (name : Option String)
    (t' : CType) (sc' : Scope) : Prop where
  gives : ∀ stop T R, T.map Token.kind = t.kinds l X → Heads EndsDeclarator R →
    (t.declaratorKinds l X = [] → Heads (FollowsType t.leaf) R) →
    ∃ specs base d sc₁ r₁, Gives (specifiers stop {} sc (T ++ R)) (specs, sc₁) r₁ ∧
      (∀ place, specs.resolve place = .ok base) ∧ specs.storage = none ∧
      Gives (declarator stop sc₁ r₁) (d, sc') R ∧ d.name = name ∧ d.apply base = t' ∧
      ∃ N, r₁ = N ++ R ∧ N.map Token.kind = t.declaratorKinds l X

/-- The specifiers of the type and a declarator of it around the name, with names for parameters or
without, are read as specifiers and a declarator that declare a type. -/
structure ReadsWords (l : Labels) (sc : Scope) (t : CType) (name : Option String) (t' : CType)
    (sc' : Scope) : Prop where
  gives : ∀ stop S N R, S.map Token.kind = t.leaf.specifierKinds l →
    t.Words l (nameKinds name) (N.map Token.kind) → Heads EndsDeclarator R →
    (N = [] → Heads (FollowsType t.leaf) R) →
    ∃ specs base d sc₁, Gives (specifiers stop {} sc (S ++ (N ++ R))) (specs, sc₁) (N ++ R) ∧
      (∀ place, specs.resolve place = .ok base) ∧ specs.storage = none ∧
      Gives (declarator stop sc₁ (N ++ R)) (d, sc') R ∧ d.name = name ∧ d.apply base = t'

theorem parameterKinds_cons (ks : List TokenKind) (kss : List (List TokenKind)) (v : Bool) :
    parameterKinds (ks :: kss) v =
      ks ++ if kss = [] ∧ v = false then [] else .mark .comma :: parameterKinds kss v := by
  cases kss with
  | nil => cases v <;> simp [parameterKinds, commaKinds]
  | cons k kss => simp [parameterKinds, commaKinds]

/-- What is known of the parameters of a function when the function is looked at. What they are read
as does not depend on their names. -/
def ParametersRead (l : Labels) (r : RecordId → Prop) (ps : List CType) : Prop :=
  ∀ p ∈ ps, ∀ sc : Scope, sc.Ready l r → ∃ p' sc', sc.Widens sc' ∧ sc'.Ready l r ∧
    p.emptied.Matches l sc'.context p' ∧ ∀ name, ReadsWords l sc p name p' sc'

theorem followsType_comma (t : CType) : FollowsType t (.mark .comma) := by
  cases t <;> simp [FollowsType]

theorem followsType_parenClose (t : CType) : FollowsType t (.mark .parenClose) := by
  cases t <;> simp [FollowsType]

/-- Specifiers do not begin with an ellipsis. -/
theorem no_ellipsis {t : CType} (ht : t.Legible r e) {S : List Token}
    (hS : S.map Token.kind = t.leaf.specifierKinds l) (R : List Token) :
    take? .ellipsis (S ++ R) = none := by
  obtain ⟨w, rest, hspec, -⟩ := specifierKinds_eq_cons (l := l) ht
  rw [hspec, List.map_eq_cons_iff] at hS
  obtain ⟨t, S, rfl, hkind, -⟩ := hS
  exact take?_of_ne (by rw [hkind]; simp)

/-- **The tokens of parameters are read as the parameters** by `parameters`. -/
theorem reads_parameters {ps : List CType} (v : Bool) (hw : ∀ p ∈ ps, p.Legible r e)
    (hps : ParametersRead l r ps) (hne : ps ≠ [] ∨ v = true) {sc : Scope} (hsc : sc.Ready l r) :
    ∃ ps' sc', sc.Widens sc' ∧ sc'.Ready l r ∧
      CType.MatchesAll l sc'.context (CType.emptiedAll ps) ps' ∧
      ∀ stop kss T close R, CType.ParameterWords l ps kss →
        T.map Token.kind = parameterKinds kss v → close.kind = .mark .parenClose →
        Gives (parameters stop sc (T ++ close :: R)) (ps', v, sc') (close :: R) := by
  induction ps generalizing sc with
  | nil =>
    obtain rfl : v = true := by simpa using hne
    refine ⟨[], sc, .refl sc, hsc, rfl, fun stop kss T close R hkss hT hclose => ?_⟩
    obtain rfl : kss = [] := hkss
    simp only [parameterKinds, ↓reduceIte, List.nil_append, commaKinds,
      List.map_eq_cons_iff, List.map_eq_nil_iff] at hT
    obtain ⟨t, _, rfl, ht, rfl⟩ := hT
    exact gives_parameters_ellipsis ht
  | cons p ps ih =>
    obtain ⟨p', sc₁, hw₁, hready₁, hm₁, hreads⟩ := hps p List.mem_cons_self sc hsc
    by_cases hlast : ps = [] ∧ v = false
    · obtain ⟨rfl, rfl⟩ := hlast
      refine ⟨[p'], sc₁, hw₁, hready₁, ⟨p', [], hm₁, rfl, rfl⟩,
        fun stop kss T close R hkss hT hclose => ?_⟩
      obtain ⟨name, D, rest, hD, hrest, rfl⟩ := hkss
      obtain rfl : rest = [] := hrest
      rw [parameterKinds_cons, if_pos ⟨rfl, rfl⟩, List.append_nil] at hT
      obtain ⟨S, N, rfl, hS, rfl⟩ := List.map_eq_append_iff.1 hT
      obtain ⟨specs, base, d, sc₂, hs, hb, -, hd, -, rfl⟩ :=
        (hreads name).gives stop S N (close :: R) hS hD (heads_cons.2 ⟨_, hclose, by decide⟩)
          fun _ => heads_cons.2 (by rw [hclose]; exact followsType_parenClose _)
      rw [List.append_assoc]
      exact gives_parameters_last (no_ellipsis (hw p List.mem_cons_self) hS _) hs hb
        (gives_parameterDeclarator hd)
        (take?_of_ne (by rw [hclose]; decide))
    · have hne' : ps ≠ [] ∨ v = true := by
        rcases Classical.em (ps = []) with h | h
        · exact .inr (by simpa [h] using hlast)
        · exact .inl h
      obtain ⟨ps', sc₂, hw₂, hready₂, hm₂, hgives⟩ :=
        ih (fun p hp => hw p (List.mem_cons_of_mem _ hp))
          (fun p hp => hps p (List.mem_cons_of_mem _ hp)) hne' hready₁
      refine ⟨p' :: ps', sc₂, hw₁.trans hw₂, hready₂, ⟨p', ps', hm₁.mono hw₂.grows, hm₂, rfl⟩,
        fun stop kss T close R hkss hT hclose => ?_⟩
      obtain ⟨name, D, rest, hD, hrest, rfl⟩ := hkss
      have hmore : ¬(rest = [] ∧ v = false) := fun h =>
        hlast ⟨Classical.not_not.1 fun hps => hrest.ne_nil hps h.1, h.2⟩
      rw [parameterKinds_cons, if_neg hmore] at hT
      obtain ⟨P, T, rfl, hP, hrestT⟩ := List.map_eq_append_iff.1 hT
      rw [List.map_eq_cons_iff] at hrestT
      obtain ⟨comma, T, rfl, hcomma, hrestT⟩ := hrestT
      obtain ⟨S, N, rfl, hS, rfl⟩ := List.map_eq_append_iff.1 hP
      rw [List.append_assoc, List.cons_append, List.append_assoc]
      obtain ⟨specs, base, d, sc₃, hs, hb, -, hd, -, rfl⟩ :=
        (hreads name).gives stop S N (comma :: (T ++ close :: R)) hS hD
          (heads_cons.2 ⟨_, hcomma, by decide⟩)
          fun _ => heads_cons.2 (by rw [hcomma]; exact followsType_comma _)
      exact gives_parameters_cons (no_ellipsis (hw p List.mem_cons_self) hS _) hs hb
        (gives_parameterDeclarator hd) hcomma (hgives stop rest T close R hrest hrestT hclose)

theorem takeNoParameters?_eq_none {t : Token} {ts : List Token} (h : t.kind ≠ .mark .parenClose)
    (hv : t.kind = .keyword (.builtin .void) → Heads (· ≠ .mark .parenClose) ts) :
    takeNoParameters? (t :: ts) = none := by
  obtain ⟨k, _⟩ := t
  rw [takeNoParameters?]
  · rintro _ _ heq
    cases heq
    exact absurd rfl h
  · rintro _ _ _ heq
    cases heq
    exact absurd rfl (heads_cons.1 (hv rfl))

/-- The first token of parameters: a keyword, or the ellipsis. -/
theorem head?_parameterKinds {ps : List CType} {v : Bool} (hw : ∀ p ∈ ps, p.Legible r e)
    {kss : List (List TokenKind)} (hkss : CType.ParameterWords l ps kss) {k : TokenKind}
    (hk : k ∈ (parameterKinds kss v).head?) :
    (∃ w, k = .keyword w) ∨ k = .mark .ellipsis := by
  cases ps with
  | nil =>
    obtain rfl : kss = [] := hkss
    cases v with
    | false => cases hk
    | true => exact .inr (Option.some.inj hk).symm
  | cons p ps =>
    obtain ⟨name, D, rest, -, -, rfl⟩ := hkss
    obtain ⟨w, ks, hspec, -⟩ := specifierKinds_eq_cons (l := l) (hw p List.mem_cons_self)
    rw [parameterKinds_cons, hspec] at hk
    exact .inl ⟨w, (Option.some.inj hk).symm⟩

/-- Parameters do not look like the word for no parameters. -/
theorem takeNoParameters?_parameters {ps : List CType} {v : Bool}
    (hw : ∀ p ∈ ps, p.Legible r e) (hv : v = true ∨ ps ≠ [.builtin .none "void"])
    (hne : ps ≠ [] ∨ v = true) {kss : List (List TokenKind)}
    (hkss : CType.ParameterWords l ps kss) {P : List Token} {close : Token} (R : List Token)
    (hP : P.map Token.kind = parameterKinds kss v) :
    takeNoParameters? (P ++ close :: R) = none := by
  cases ps with
  | nil =>
    obtain rfl : v = true := by simpa using hne
    obtain rfl : kss = [] := hkss
    simp only [parameterKinds, ↓reduceIte, List.nil_append, commaKinds,
      List.map_eq_cons_iff, List.map_eq_nil_iff] at hP
    obtain ⟨t, _, rfl, ht, rfl⟩ := hP
    exact takeNoParameters?_eq_none (by rw [ht]; decide) (by rw [ht]; intro h; cases h)
  | cons p ps =>
    have hp := hw p List.mem_cons_self
    obtain ⟨name, D, kss, hD, hkss, rfl⟩ := hkss
    obtain ⟨w, rest, hspec, hvoid, -⟩ := specifierKinds_eq_cons (l := l) hp
    rw [parameterKinds_cons, hspec, List.cons_append, List.cons_append,
      List.map_eq_cons_iff] at hP
    obtain ⟨t, P, rfl, ht, hP⟩ := hP
    refine takeNoParameters?_eq_none (by rw [ht]; simp) fun hk => ?_
    obtain ⟨hleaf, rfl⟩ := hvoid (by simpa [ht] using hk)
    rw [List.nil_append] at hP
    -- behind `void` stands a declarator or, if there is none, the next parameter's comma
    cases D with
    | nil =>
      obtain rfl : p = .builtin .none "void" := by
        rw [← leaf_of_hasDeclarator_eq_false (hD.hasDeclarator_eq_false hp), hleaf]
      have hmore : ¬(kss = [] ∧ v = false) := by
        rintro ⟨hnil, rfl⟩
        refine hkss.ne_nil (fun hps => ?_) hnil
        rw [hps] at hv
        simp at hv
      rw [if_neg hmore, List.nil_append, List.map_eq_cons_iff] at hP
      obtain ⟨comma, P, rfl, hcomma, -⟩ := hP
      exact heads_cons.2 (by rw [hcomma]; decide)
    | cons k ks =>
      rw [List.cons_append, List.map_eq_cons_iff] at hP
      obtain ⟨u, P, rfl, hu, -⟩ := hP
      refine heads_cons.2 ?_
      rw [hu]
      rcases hD.head?_name hp rfl with ⟨n, -, rfl⟩ | ⟨m, rfl, hm⟩
      · rintro ⟨⟩
      · rintro ⟨⟩
        simp [Mark.pointerKind?] at hm

/-- `void` alone is read as no parameters. -/
theorem gives_functionSuffix_void {P R : List Token} {close : Token}
    (hP : P.map Token.kind = parameterKinds (CType.kindsAll l [.builtin .none "void"]) false)
    (hclose : close.kind = .mark .parenClose) :
    Gives (functionSuffix stop sc (P ++ close :: R)) ([], false, sc) R := by
  have hkinds : parameterKinds (CType.kindsAll l [.builtin .none "void"]) false =
      [.keyword (.builtin .void)] := by
    have hwords : spellingWords "void" = [.void] := by decide
    simp [CType.kindsAll, parameterKinds, commaKinds, CType.leaf, CType.specifierKinds,
      CType.declaratorKinds, Qualifiers.kinds, Qualifiers.members, Qualifiers.none, hwords]
  rw [hkinds, List.map_eq_cons_iff] at hP
  obtain ⟨⟨k, loc⟩, P, rfl, rfl, hnil⟩ := hP
  obtain rfl := List.map_eq_nil_iff.1 hnil
  obtain ⟨kc, lc⟩ := close
  obtain rfl : kc = .mark .parenClose := hclose
  unfold functionSuffix
  exact ⟨_, rfl, rfl, rfl⟩

/-- **The tokens of a function's suffix are read as the parameters** by `functionSuffix`. -/
theorem reads_functionSuffix {ps : List CType} {v : Bool} (hw : ∀ p ∈ ps, p.Legible r e)
    (hps : ParametersRead l r ps) {sc : Scope} (hsc : sc.Ready l r) :
    ∃ ps' sc', sc.Widens sc' ∧ sc'.Ready l r ∧
      CType.MatchesAll l sc'.context
        (if !v && ps = [.builtin .none "void"] then [] else CType.emptiedAll ps) ps' ∧
      ∀ kss, CType.ParameterWords l ps kss →
        (v = false → ps = [.builtin .none "void"] → kss = CType.kindsAll l ps) →
        ∀ stop P R close, P.map Token.kind = parameterKinds kss v →
          close.kind = .mark .parenClose →
          Gives (functionSuffix stop sc (P ++ close :: R)) (ps', v, sc') R := by
  cases hvoid : !v && decide (ps = [.builtin .none "void"]) with
  | true =>
    obtain ⟨rfl, rfl⟩ : v = false ∧ ps = [.builtin .none "void"] := by simpa using hvoid
    refine ⟨[], sc, .refl sc, hsc, rfl, fun kss _ hbare stop P R close hP hclose => ?_⟩
    rw [hbare rfl rfl] at hP
    exact gives_functionSuffix_void hP hclose
  | false =>
    have hv : v = true ∨ ps ≠ [.builtin .none "void"] := by
      cases v with
      | true => exact .inl rfl
      | false => exact .inr (by simpa using hvoid)
    by_cases hne : ps ≠ [] ∨ v = true
    · obtain ⟨ps', sc', hwid, hready, hm, hgives⟩ := reads_parameters v hw hps hne hsc
      refine ⟨ps', sc', hwid, hready, hm, fun kss hkss _ stop P R close hP hclose => ?_⟩
      exact gives_functionSuffix (takeNoParameters?_parameters hw hv hne hkss R hP)
        (hgives stop kss P close R hkss hP hclose) hclose
    · obtain ⟨rfl, rfl⟩ : ps = [] ∧ v = false := by simpa using hne
      refine ⟨[], sc, .refl sc, hsc, rfl, fun kss hkss _ stop P R close hP hclose => ?_⟩
      obtain rfl : kss = [] := hkss
      obtain rfl : P = [] := by simpa [parameterKinds, commaKinds] using hP
      exact gives_functionSuffix_empty hclose

/-! ## 4. Declarations -/

/-- What the tokens of a declarator around others are read as, behind the scope that the others
leave. -/
def AroundRead (l : Labels) (r : RecordId → Prop) (t : CType) : Prop :=
  ∀ {sc' : Scope}, sc'.Ready l r → ∃ E sc'', sc'.Widens sc'' ∧ sc''.Ready l r ∧
    (∀ ctx base, sc''.context.Grows ctx → t.leaf.Matches l ctx base →
      t.emptied.Matches l ctx (Derivation.applyAll base E)) ∧
    ∀ {sc : Scope} {X Y : List TokenKind} {name : Option String} {D : List Derivation},
      (t.isTight = true → Direct sc X name D sc') → Declares sc X name D sc' → t.Words l X Y →
      Declares sc Y name (D ++ E) sc''

/-- Specifiers and a declarator make a declaration, whether they have a name or not. -/
theorem AroundRead.words {t : CType} (ht : t.Legible r e) (h : AroundRead l r t) {sc : Scope}
    (hsc : sc.Ready l r) :
    ∃ t' sc', sc.Widens sc' ∧ sc'.Ready l r ∧ t.emptied.Matches l sc'.context t' ∧
      ∀ name, ReadsWords l sc t name t' sc' := by
  obtain ⟨base, sc₁, hw₁, hready₁, hbase, hspecs⟩ := reads_specifiers ht hsc
  obtain ⟨E, sc₂, hw₂, hready₂, hE, haround⟩ := h hready₁
  refine ⟨Derivation.applyAll base E, sc₂, hw₁.trans hw₂, hready₂,
    hE sc₂.context base (.refl _) (hbase.mono hw₂.grows),
    fun name => ⟨fun stop S N R hS hN hR hnil => ?_⟩⟩
  have hname : Direct sc₁ (nameKinds name) name [] sc₁ := by
    cases name with
    | none => exact direct_nil
    | some x => exact direct_name x
  have hdecl := haround (fun _ => hname) hname.declares hN
  have hfollows : Heads (FollowsType t.leaf) (N ++ R) := by
    refine heads_append (fun k hk => ?_) hnil
    rcases hN.head?_name ht hk with ⟨n, -, rfl⟩ | hk
    · cases t.leaf <;> trivial
    · exact hk.followsType _
  obtain ⟨specs, hgives, hres, hst⟩ := hspecs stop S (N ++ R) hS hfollows
  exact ⟨specs, base, ⟨name, E⟩, sc₁, hgives, hres, hst, hdecl.gives stop N R rfl hR, rfl, rfl⟩

/-- **The tokens around a declarator are read as what they wrap it in** (`AroundRead`), if the type
is `Legible`. -/
theorem reads_around {t : CType} (ht : t.Legible r e) : AroundRead l r t := by
  induction ht with
  | builtin _ | record _ | enumeration _ =>
    intro sc' hready
    refine ⟨[], sc', .refl sc', hready, fun ctx base _ hm => hm, ?_⟩
    intro sc X Y name D _ hdecl hY
    obtain rfl : Y = X := hY
    rwa [List.append_nil]
  | @pointer q k t hk _ _ ih =>
    intro sc' hready
    obtain ⟨E, sc'', hw, hready'', hE, haround⟩ := ih hready
    refine ⟨.pointer k q :: E, sc'', hw, hready'',
      fun ctx base hg hm => ⟨_, hE ctx base hg hm, rfl⟩, ?_⟩
    intro sc X Y name D _ hdecl hY
    have hp := hdecl.pointer hk q
    have hpointer : ∃ x ∈ (.mark k.mark :: (q.kinds ++ X) : List TokenKind).head?,
        isPointerKind x = true :=
      ⟨_, rfl, by rw [isPointerKind, pointerKind?_mark hk]; rfl⟩
    have hdirect : t.isTight = true →
        Direct sc (pointerKinds t.isTight k q X) name (D ++ [.pointer k q]) sc' := by
      intro htight
      rw [htight]
      exact hp.nested hpointer
    have hdecl' : Declares sc (pointerKinds t.isTight k q X) name (D ++ [.pointer k q]) sc' := by
      cases htight : t.isTight with
      | true => rw [← htight]; exact (hdirect htight).declares
      | false => exact hp
    have hd := haround hdirect hdecl' hY
    rwa [List.append_assoc] at hd
  | @array n t _ ih =>
    intro sc' hready
    obtain ⟨E, sc'', hw, hready'', hE, haround⟩ := ih hready
    refine ⟨.array n :: E, sc'', hw, hready'',
      fun ctx base hg hm => ⟨_, hE ctx base hg hm, rfl⟩, ?_⟩
    intro sc X Y name D hdirect _ hY
    have hd := (hdirect rfl).array n
    have hd' := haround (fun _ => hd) hd.declares hY
    rwa [List.append_assoc] at hd'
  | @function t ps v _ hps ih ihs =>
    intro sc' hready
    have hparams : ParametersRead l r ps := fun p hp sc hsc =>
      AroundRead.words (hps p hp) (ihs p hp) hsc
    obtain ⟨ps', sc₁, hw₁, hready₁, hm₁, hsuffix⟩ := reads_functionSuffix hps hparams hready
    obtain ⟨E, sc'', hw, hready'', hE, haround⟩ := ih hready₁
    refine ⟨.function ps' v :: E, sc'', hw₁.trans hw, hready'', fun ctx base hg hm =>
      ⟨_, _, hE ctx base hg hm, hm₁.mono (hw.grows.trans hg), rfl⟩, ?_⟩
    intro sc X Y name D hdirect _ hY
    obtain ⟨kss, hkss, hbare, hY⟩ := hY
    have hbegins : ∀ k ∈ (parameterKinds kss v).head?, ∀ sc, beginsDeclarator sc k = false := by
      intro k hk sc
      rcases head?_parameterKinds hps hkss hk with ⟨w, rfl⟩ | rfl
      · rfl
      · rfl
    have hd := (hdirect rfl).function hbegins (hsuffix kss hkss hbare)
    have hd' := haround (fun _ => hd) hd.declares hY
    rwa [List.append_assoc] at hd'

/-- **The tokens of a declaration are read as the declared type** (`ReadsWords`). It does not depend
on the name, or whether there is one, nor on the names of parameters. -/
theorem reads_words {t : CType} (ht : t.Legible r e) {sc : Scope} (hsc : sc.Ready l r) :
    ∃ t' sc', sc.Widens sc' ∧ sc'.Ready l r ∧ t.emptied.Matches l sc'.context t' ∧
      ∀ name, ReadsWords l sc t name t' sc' :=
  AroundRead.words ht (reads_around ht) hsc

/-- **The tokens of a declaration without names for parameters** are among these (`ReadsAs`). -/
theorem reads_declaration {t : CType} (ht : t.Legible r e) (name : Option String) {sc : Scope}
    (hsc : sc.Ready l r) :
    ∃ t' sc', sc.Widens sc' ∧ sc'.Ready l r ∧
      t.emptied.Matches l sc'.context t' ∧
      ReadsAs l sc t (name.map TokenKind.ident).toList name t' sc' := by
  obtain ⟨t', sc', hw, hready, hm, hreads⟩ := reads_words ht hsc
  refine ⟨t', sc', hw, hready, hm, ⟨fun stop T R hT hR hnil => ?_⟩⟩
  obtain ⟨S, N, rfl, hS, hN⟩ := List.map_eq_append_iff.1 hT
  have hwords : t.Words l (nameKinds name) (N.map Token.kind) := by
    rw [hN]
    exact CType.words_declaratorKinds l t _
  obtain ⟨specs, base, d, sc₁, hs, hb, hst, hd, hname, happly⟩ :=
    (hreads name).gives stop S N R hS hwords hR fun h => hnil (by rw [← hN, h]; rfl)
  rw [List.append_assoc]
  exact ⟨specs, base, d, sc₁, N ++ R, hs, hb, hst, hd, hname, happly, N, rfl, hN⟩

end TypeLedger
