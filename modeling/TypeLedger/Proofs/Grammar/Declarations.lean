import TypeLedger.Proofs.Grammar.NamedParameters

/-!
# Reading external declarations

* `gives_declaratorList_single`: one declarator with a name, and the semicolon behind it.
* `gives_named`: the tokens of the declaration of a name, with a semicolon behind, are read as one
  declaration.
* `declarations_of_gives`: a text is read declaration by declaration.
* `parse_of_spelled`: a text is read as its tokens are.
-/

namespace TypeLedger

variable {stop : Location} {sc sc₁ sc₂ : Scope} {l : Labels} {r : RecordId → Prop}
  {e : EnumId → Prop}

section Counted

variable [Counting]

/-- A text is read declaration by declaration. -/
theorem declarations_of_gives {ts rest : List Token} {own : List Declaration}
    (h : Gives (externalDeclaration stop sc ts) (own, sc₁) rest) :
    declarations stop sc ts =
      (declarations stop sc₁ rest).map fun v => (own ++ v.1, v.2) := by
  obtain ⟨s, hs, hv, rfl⟩ := h
  have hne : ts.isEmpty = false := by
    have := s.short
    cases ts with
    | nil => simp at this
    | cons t ts => rfl
  conv => lhs; unfold declarations
  rw [hne, hs]
  simp only [Bool.false_eq_true, ↓reduceIte, bind, Except.bind, hv]
  cases declarations stop sc₁ s.rest <;> rfl

theorem declarations_cons {ts rest : List Token} {own list : List Declaration}
    (h : Gives (externalDeclaration stop sc ts) (own, sc₁) rest)
    (hr : declarations stop sc₁ rest = .ok (list, sc₂)) :
    declarations stop sc ts = .ok (own ++ list, sc₂) := by
  rw [declarations_of_gives h, hr]
  rfl

theorem declarations_nil : declarations stop sc [] = .ok ([], sc) := by
  unfold declarations
  rfl

/-- A declarator with a name is not missing. -/
theorem no_semicolon_of_named {ts rest : List Token} {d : Declarator} {x : String}
    (h : Gives (declarator stop sc ts) (d, sc₁) rest) (hx : d.name = some x) :
    take? .semicolon ts = none := by
  cases hs : startsWith .semicolon ts with
  | false =>
    cases ts with
    | nil => rfl
    | cons t ts =>
      refine take?_of_ne fun hk => ?_
      rw [startsWith_of_kind hk] at hs
      cases hs
  | true =>
    obtain ⟨t, ts, rfl, ht⟩ := startsWith_iff.1 hs
    obtain ⟨hd, -⟩ := h.unique (gives_declarator_missing (heads_cons.2 ⟨_, ht, by decide⟩))
    rw [(Prod.mk.inj hd).1] at hx
    cases hx

/-- One declarator with a name, and the semicolon behind it. -/
theorem gives_declaratorList_single (base : CType) (storage : Option StorageClass)
    {ts R : List Token} {d : Declarator} {x : String} {semi : Token}
    (hd : Gives (declarator stop sc ts) (d, sc₁) (semi :: R)) (hx : d.name = some x)
    (hsemi : semi.kind = .mark .semicolon) :
    Gives (declaratorList stop base storage sc ts)
      ([⟨some x, d.apply base, storage, place stop ts⟩],
        if storage = some .typeSynonym then sc₁.nameType x (.synonym .none x (d.apply base))
        else sc₁) R := by
  have hne {m : Mark} (hm : m ≠ .semicolon) : semi.kind ≠ .mark m := by
    rw [hsemi]
    simpa using Ne.symm hm
  have hbrace : startsWith .braceOpen (semi :: R) = false :=
    startsWith_eq_false (heads_cons.2 (hne (by decide)))
  unfold declaratorList
  refine gives_bind hd fun _ => ?_
  dsimp only
  split
  · rename_i hn
    rw [hx] at hn
    cases hn
  · rename_i n hn
    obtain rfl : x = n := Option.some.inj (hx.symm.trans hn)
    rw [hbrace, Bool.and_false]
    simp only [Bool.false_eq_true, ↓reduceIte]
    refine gives_bind (gives_skipInitializer_none (hne (by decide))) fun _ => ?_
    simp only [take?_of_ne (hne (m := .comma) (by decide))]
    exact gives_bind (gives_expect hsemi) fun _ => ⟨_, rfl, rfl, rfl⟩

end Counted

/-- A declaration begins with a keyword. -/
theorem kinds_eq_cons {t : CType} (ht : t.Legible r e) (X : List TokenKind) :
    ∃ w rest, t.kinds l X = .keyword w :: rest := by
  obtain ⟨w, rest, hs, -⟩ := specifierKinds_eq_cons (l := l) ht
  exact ⟨w, rest ++ t.declaratorKinds l X, by rw [CType.kinds, hs, List.cons_append]⟩

theorem take?_of_kinds {t : CType} (ht : t.Legible r e) {X : List TokenKind} {T : List Token}
    (hT : T.map Token.kind = t.kinds l X) (m : Mark) (R : List Token) :
    take? m (T ++ R) = none := by
  obtain ⟨w, rest, hks⟩ := kinds_eq_cons (l := l) ht X
  rw [hks, List.map_eq_cons_iff] at hT
  obtain ⟨t, T, rfl, hk, -⟩ := hT
  exact take?_of_ne (by rw [hk]; simp)

/-- **The tokens of a declaration with a name are read as one declaration** by
`externalDeclaration`. -/
theorem gives_named (stop : Location) {t t' : CType} (ht : t.Legible r e) {x : String}
    (h : ReadsAs l sc t [.ident x] (some x) t' sc₁) {T : List Token} {semi : Token}
    {R : List Token} (hT : T.map Token.kind = t.kinds l [.ident x])
    (hsemi : semi.kind = .mark .semicolon) :
    ∃ loc, Gives (externalDeclaration stop sc (T ++ semi :: R))
      ([⟨some x, t', none, loc⟩], sc₁) R := by
  have hnone : take? .semicolon (T ++ semi :: R) = none := take?_of_kinds ht hT _ _
  have hends : Heads EndsDeclarator (semi :: R) := heads_cons.2 ⟨_, hsemi, by decide⟩
  obtain ⟨specs, base, d, sc₂, r₁, hs, hb, hst, hd, hname, happly, -⟩ :=
    h.gives stop T (semi :: R) hT
    hends fun hnil => absurd hnil ((CType.words_declaratorKinds l t _).ne_nil ht (by simp))
  have hlist := gives_declaratorList_single base none hd hname hsemi
  rw [happly] at hlist
  refine ⟨place stop r₁, ?_⟩
  unfold externalDeclaration
  rw [hnone]
  refine gives_bind hs fun _ => ?_
  simp only [hb, no_semicolon_of_named hd hname, hst]
  exact gives_bind hlist fun _ => ⟨_, rfl, rfl, rfl⟩

/-- A text is read as its tokens are. -/
theorem parse_of_spelled {text : String} {ks : List TokenKind} (h : Spelled text ks)
    (ctx : Context) :
    ∃ ts stop, ts.map Token.kind = ks ∧
      parseSource text ctx = declarations stop { context := ctx } ts := by
  obtain ⟨ts, stop, htok, hkinds⟩ := kinds_of_lexes h.lexes
  have hbytes : text.toUTF8.toList = Text.bytes text := rfl
  refine ⟨ts, stop, hkinds, ?_⟩
  rw [parseSource, parseBytes, hbytes]
  exact congrArg (· >>= _) htok

end TypeLedger
