import TypeLedger.Proofs.Grammar.Fronts

/-!
# Sequences of specifiers without bodies

* `Specifying`: specifiers that declare no synonym and hold no body. A keyword of a record or of an
  enumeration has a tag behind it. The `Tally` says whether a type has been named, as the words are
  counted.
* `Scope.mention?`: what a keyword and its tag name. A second mention names the same, and changes
  nothing.
* `gives_specifiers_append`: the sequence is read in front of declarators as it is read by itself.
* `gives_specifiers_again`: where it has been read once, it is read again with the same result, as
  long as the names that it uses have not come to stand for other types.
-/

namespace TypeLedger

/-! ## 1. Sequences -/

/-- Tokens of these kinds, at no place in particular. -/
def placed (ks : List TokenKind) : List Token := ks.map fun k => ⟨k, ⟨0, 0⟩⟩

@[simp] theorem placed_nil : placed [] = [] := rfl

@[simp] theorem placed_cons (k : TokenKind) (ks : List TokenKind) :
    placed (k :: ks) = ⟨k, ⟨0, 0⟩⟩ :: placed ks := rfl

@[simp] theorem placed_append (ks ks' : List TokenKind) :
    placed (ks ++ ks') = placed ks ++ placed ks' := List.map_append

@[simp] theorem map_kind_placed (ks : List TokenKind) : (placed ks).map Token.kind = ks :=
  (List.map_map).trans (List.map_id ks)

/-- A tag stands behind the keyword. -/
def Keyword.takesTag : Keyword → Bool
  | .record _ | .enumeration => true
  | _ => false

/-- The token is a specifier that names no type, and does not declare a synonym. -/
def TokenKind.isModifier : TokenKind → Bool
  | .keyword (.storage c) => c != .typeSynonym
  | .keyword .inlineFunction | .keyword (.qualifier _) | .keyword .complex => true
  | _ => false

/-- The token begins a declarator. -/
def TokenKind.beginsItem : TokenKind → Bool
  | .mark m => m.pointerKind?.isSome || m == .parenOpen || m == .bracketOpen
  | .ident _ => true
  | _ => false

/-- What specifiers have said about the type so far: whether they have a record, an enumeration or a
type name among them, and their builtin words, the last one in front. -/
structure Tally where
  named : Bool := false
  words : List BuiltinWord := []

def Specifiers.tally (s : Specifiers) : Tally := ⟨s.named.isSome, s.words⟩

/-- A type has been named, as far as the parser counts. -/
def Tally.typed [Counting] (t : Tally) : Bool := t.named || !Counting.isEmpty t.words

/-- In bytes, the words name a type unless their number is a multiple of 256. -/
theorem Tally.typed_bytes (t : Tally) :
    @Tally.typed .bytes t = (t.named || t.words.length % 256 != 0) := by
  simp only [Tally.typed, Counting.isEmpty, WordCounters.total_beq_zero, bne]

section Counted

variable [Counting]

theorem Specifiers.tally_typed_eq_false {s : Specifiers} (h : s.tally.typed = false) :
    s.named = none ∧ Counting.isEmpty s.words = true := by
  simpa [Specifiers.tally, Tally.typed] using h

/-- Specifiers without a body and without `typedef`, between what has been said in front of them and
what has been said behind them. A name by itself is a specifier only while no type has been
named. -/
inductive Specifying : Tally → List TokenKind → Tally → Prop
  | nil {t : Tally} : Specifying t [] t
  | modifier {t t' : Tally} {k : TokenKind} {S : List TokenKind} (hk : k.isModifier = true)
    (h : Specifying t S t') : Specifying t (k :: S) t'
  | builtin {t t' : Tally} {S : List TokenKind} (w : BuiltinWord)
    (h : Specifying { t with words := w :: t.words } S t') :
    Specifying t (.keyword (.builtin w) :: S) t'
  | tag {t t' : Tally} {S : List TokenKind} {w : Keyword} (n : String) (hw : w.takesTag = true)
    (h : Specifying { t with named := true } S t') : Specifying t (.keyword w :: .ident n :: S) t'
  | name {t t' : Tally} {S : List TokenKind} (n : String) (ht : t.typed = false)
    (h : Specifying { t with named := true } S t') : Specifying t (.ident n :: S) t'

theorem Specifying.named_of {t t' : Tally} {S : List TokenKind} (hS : Specifying t S t')
    (h : t.named = true) : t'.named = true := by
  induction hS with
  | nil => exact h
  | modifier _ _ ih => exact ih h
  | builtin _ _ ih => exact ih h
  | tag _ _ _ ih => exact ih rfl
  | name _ _ _ ih => exact ih rfl

end Counted

/-- The names in a sequence of specifiers that are no tags. -/
def bareNames : List TokenKind → List String
  | [] => []
  | .keyword (.record _) :: .ident _ :: S | .keyword .enumeration :: .ident _ :: S => bareNames S
  | .ident n :: S => n :: bareNames S
  | _ :: S => bareNames S

theorem bareNames_modifier {k : TokenKind} (hk : k.isModifier = true) (S : List TokenKind) :
    bareNames (k :: S) = bareNames S := by
  cases k with
  | keyword w => cases w <;> first | rfl | cases hk
  | _ => cases hk

theorem bareNames_tag {w : Keyword} (hw : w.takesTag = true) (n : String) (S : List TokenKind) :
    bareNames (.keyword w :: .ident n :: S) = bareNames S := by
  cases w <;> first | rfl | cases hw

variable {C : String → Prop} {tally tally' : Tally} {S : List TokenKind} {acc acc' : Specifiers}
  {stop : Location} {sc sc₁ sc₂ : Scope} {t u : Token} {ts r X : List Token}
  {v : Specifiers × Scope}

section Counted

variable [Counting]

/-- Behind a name or a tag, every name is a tag. -/
theorem Specifying.bareNames_eq_nil (hS : Specifying tally S tally') (h : tally.named = true) :
    bareNames S = [] := by
  induction hS with
  | nil => rfl
  | modifier hk _ ih => rw [bareNames_modifier hk, ih h]
  | builtin _ _ ih => exact ih h
  | tag n hw _ ih => rw [bareNames_tag hw, ih rfl]
  | name n ht =>
    rw [Tally.typed, h] at ht
    cases ht

/-- Neither a body nor the end of a declaration stands next. -/
theorem Specifying.heads_append (hS : Specifying tally S tally')
    (hX : Heads (·.beginsItem = true) X) :
    Heads (fun k => (k ≠ .mark .braceOpen ∧ k ≠ .mark .colon) ∧ k ≠ .mark .semicolon)
      (placed S ++ X) := by
  cases hS with
  | nil =>
    refine hX.imp fun k hk => ⟨⟨?_, ?_⟩, ?_⟩
    all_goals
      rintro rfl
      cases hk
  | @modifier _ _ k S hk =>
    refine heads_cons.2 ⟨⟨?_, ?_⟩, ?_⟩
    all_goals
      rintro rfl
      cases hk
  | _ => exact heads_cons.2 ⟨⟨nofun, nofun⟩, nofun⟩

theorem Specifying.heads (hS : Specifying tally S tally') :
    Heads (fun k => k ≠ .mark .braceOpen ∧ k ≠ .mark .colon) (placed S) := by
  have h := (hS.heads_append (X := []) nofun).imp fun _ h => h.1
  rwa [List.append_nil] at h

end Counted

/-! ## 2. Mentions -/

namespace Scope

/-- What a keyword and the tag behind it name, and the scope that has it. -/
def mention? (sc : Scope) (w : Keyword) (n : String) : Option (CType × Scope) :=
  match w with
  | .record key =>
    match tagged sc key (some n) false with
    | .ok (id, sc₁) => some (.record .none id, nameClass sc₁ key (some n) id)
    | .error _ => none
  | .enumeration =>
    some (match sc.context.findEnum? n with
      | some id => (.enumeration .none id, sc)
      | none => (.enumeration .none ⟨sc.context.enums.length⟩,
          { sc with context := (sc.context.declareEnum (some n)).2 }))
  | _ => none

theorem nameClass_context (sc : Scope) (key : RecordKey) (name : Option String) (id : RecordId) :
    (nameClass sc key name id).context = sc.context := by
  unfold nameClass
  split <;> rfl

/-- A record that is found under its name is the one that is mentioned. -/
theorem tagged_of_findRecord? {key : RecordKey} {n : String} {id : RecordId}
    (h : sc.context.findRecord? n = some id) : tagged sc key (some n) false = .ok (id, sc) := by
  simp only [tagged, h, Bool.false_eq_true, false_and, ↓reduceIte]

/-- **A second mention names the same, and changes nothing,** in every scope that the first one
`Grows` to. -/
theorem mention?_again {w : Keyword} {n : String} {type : CType}
    (h : sc.mention? w n = some (type, sc₁)) (hgrows : sc₁.Grows C sc₂) :
    sc₂.mention? w n = some (type, sc₂) := by
  cases w with
  | record key =>
    unfold mention? at h ⊢
    dsimp only at h ⊢
    split at h
    · rename_i id sc' htag
      obtain ⟨-, hid⟩ := grows_tagged (C := C) htag
      cases h
      have hid₁ : (nameClass sc' key (some n) id).context.findRecord? n = some id := by
        rw [nameClass_context]
        exact hid n rfl
      have hid₂ := hgrows.records n id hid₁
      rw [tagged_of_findRecord? hid₂]
      -- the name of a class stands for it already
      have hsame : nameClass sc₂ key (some n) id = sc₂ := by
        cases key with
        | classKey =>
          have hn : sc₂.typeName? n = some (.record .none id) := by
            rcases hgrows.names n with hn | ⟨-, id', hid', hn⟩
            · exact hn.trans (Keyed.lookup_set_self _ _ _)
            · rw [hid₂] at hid'
              cases hid'
              exact hn
          show { sc₂ with names := Keyed.set n (.record .none id) sc₂.names } = sc₂
          rw [Keyed.set_of_lookup hn]
        | _ => rfl
      dsimp only
      rw [hsame]
    · cases h
  | enumeration =>
    unfold mention? at h ⊢
    dsimp only at h ⊢
    cases hid : sc.context.findEnum? n with
    | some id =>
      rw [hid] at h
      cases h
      rw [hgrows.enums n id hid]
    | none =>
      rw [hid] at h
      cases h
      have hnew : (sc.context.declareEnum (some n)).2.findEnum? n =
          some ⟨sc.context.enums.length⟩ := by
        simp [Context.findEnum?, Context.declareEnum, lastPosition?_append]
      rw [hgrows.enums n _ hnew]
  | _ => cases h

end Scope

/-! ## 3. One specifier -/

/-- An enumeration that is mentioned. -/
theorem gives_enumSpecifier_mention (stop : Location) (sc : Scope) {n : String}
    (hu : u.kind = .ident n) (hts : Heads (fun k => k ≠ .mark .braceOpen ∧ k ≠ .mark .colon) ts) :
    ∃ type sc₁, sc.mention? .enumeration n = some (type, sc₁) ∧
      Gives (enumSpecifier stop sc (u :: ts)) (type, sc₁) ts := by
  obtain ⟨⟨⟨type, sc₁⟩, r, hlt⟩, hs, hv, hr⟩ :=
    gives_enumSpecifier_named stop sc hu (hts.imp fun _ h => h.1)
  exact ⟨type, sc₁, congrArg some hv.symm, _, hs, rfl, hr⟩

variable [Counting]

theorem of_gives_specifiers_nil (h : Gives (specifiers stop acc sc []) v r) : v = (acc, sc) :=
  (h.unique (gives_specifiers_end nofun)).1

theorem gives_specifiers_add_iff (ha : acc.add? sc t.kind = some acc') :
    Gives (specifiers stop acc sc (t :: ts)) v r ↔ Gives (specifiers stop acc' sc ts) v r := by
  refine ⟨fun h => ?_, gives_specifiers_add acc' ha⟩
  unfold specifiers at h
  simp only [ha] at h
  obtain ⟨⟨v', r', hlt⟩, hs, s, hs', rfl, rfl⟩ := of_gives_bind h
  cases hs'
  exact ⟨_, hs, rfl, rfl⟩

/-- A record that is mentioned. -/
theorem gives_recordSpecifier_mention (stop l : Location) (sc : Scope) (key : RecordKey)
    {n : String} (hu : u.kind = .ident n)
    (hts : Heads (fun k => k ≠ .mark .braceOpen ∧ k ≠ .mark .colon) ts) :
    ∃ type sc₁, sc.mention? (.record key) n = some (type, sc₁) ∧
      Gives (recordSpecifier stop key l sc (u :: ts)) (type, sc₁) ts := by
  have hn : optionalName (u :: ts) = ⟨some n, ts, lt_succ_of_length_lt (length_rest_lt u ts)⟩ := by
    unfold optionalName
    rw [takeIdent?_of_kind hu]
  obtain ⟨id, sc₁, htag⟩ : ∃ id sc₁, tagged sc key (some n) false = .ok (id, sc₁) := by
    unfold tagged
    dsimp only
    cases sc.context.findRecord? n with
    | some id => exact ⟨id, sc, by simp only [Bool.false_eq_true, false_and, ↓reduceIte]⟩
    | none => exact ⟨_, _, rfl⟩
  refine ⟨.record .none id, nameClass sc₁ key (some n) id, by simp only [Scope.mention?, htag], ?_⟩
  unfold recordSpecifier
  simp only [hn, startsWith_eq_false (hts.imp fun _ h => h.1),
    startsWith_eq_false (hts.imp fun _ h => h.2), Bool.or_self, htag]
  exact ⟨_, rfl, rfl, rfl⟩

/-- Behind a mention, the `specifiers` go on only if no type has been named before. -/
theorem of_gives_named {n : Nat} {type : CType}
    {hlt : ∀ s : Reads ts (Specifiers × Scope), s.rest.length < n}
    (h : Gives (refuseSecond stop acc ts >>= fun _ =>
      specifiers stop { acc with named := some type } sc ts >>= fun s =>
        (pure ⟨s.value, s.rest, hlt s⟩ : Except SourceError (Step n (Specifiers × Scope)))) v r) :
    acc.named = none ∧ Gives (specifiers stop { acc with named := some type } sc ts) v r := by
  cases hn : acc.named with
  | some t =>
    have hrefuse : refuseSecond stop acc ts = .error (faultAt (place stop ts) .twoTypeNames) := by
      rw [refuseSecond, hn]
      rfl
    rw [hrefuse] at h
    obtain ⟨s, hs, -⟩ := h
    cases hs
  | none =>
    have hpass : refuseSecond stop acc ts = .ok () := by
      rw [refuseSecond, hn]
      rfl
    rw [hpass] at h
    obtain ⟨s, hs, s', hs', rfl, rfl⟩ := of_gives_bind h
    cases hs'
    exact ⟨rfl, s, hs, rfl, rfl⟩

/-- A keyword and its tag, behind `specifiers` that have not named a type yet. -/
theorem gives_specifiers_mention_iff {w : Keyword} {n : String} (hw : w.takesTag = true)
    (ht : t.kind = .keyword w) (hu : u.kind = .ident n)
    (hts : Heads (fun k => k ≠ .mark .braceOpen ∧ k ≠ .mark .colon) ts) :
    Gives (specifiers stop acc sc (t :: u :: ts)) v r ↔
      acc.named = none ∧ ∃ type sc₁, sc.mention? w n = some (type, sc₁) ∧
        Gives (specifiers stop { acc with named := some type } sc₁ ts) v r := by
  obtain ⟨k, l⟩ := t
  cases ht
  cases w with
  | record key =>
    obtain ⟨type, sc₁, hm, hrec⟩ := gives_recordSpecifier_mention stop l sc key hu hts
    constructor
    · intro h
      unfold specifiers at h
      simp only [Specifiers.add?] at h
      obtain ⟨⟨⟨type', sc₁'⟩, r₁, hlt⟩, hrec', h⟩ := of_gives_bind h
      obtain ⟨hv, rfl⟩ := hrec.unique ⟨_, hrec', rfl, rfl⟩
      cases hv
      obtain ⟨hn, h⟩ := of_gives_named h
      exact ⟨hn, type, sc₁, hm, h⟩
    · rintro ⟨hn, type', sc₁', hm', h⟩
      rw [hm] at hm'
      cases hm'
      exact gives_specifiers_record rfl hn hrec h
  | enumeration =>
    obtain ⟨type, sc₁, hm, henum⟩ := gives_enumSpecifier_mention stop sc hu hts
    constructor
    · intro h
      unfold specifiers at h
      simp only [Specifiers.add?] at h
      obtain ⟨⟨⟨type', sc₁'⟩, r₁, hlt⟩, henum', h⟩ := of_gives_bind h
      obtain ⟨hv, rfl⟩ := henum.unique ⟨_, henum', rfl, rfl⟩
      cases hv
      obtain ⟨hn, h⟩ := of_gives_named h
      exact ⟨hn, type, sc₁, hm, h⟩
    · rintro ⟨hn, type', sc₁', hm', h⟩
      rw [hm] at hm'
      cases hm'
      exact gives_specifiers_enum rfl hn henum h
  | _ => cases hw

/-- A modifier is one more word, in every scope. -/
theorem add?_modifier {k : TokenKind} (hk : k.isModifier = true) (acc : Specifiers) :
    ∃ acc', (∀ sc, acc.add? sc k = some acc') ∧ acc'.named = acc.named ∧ acc'.words = acc.words ∧
      (acc'.storage = some .typeSynonym → acc.storage = some .typeSynonym) := by
  cases k with
  | keyword w =>
    cases w with
    | storage c =>
      refine ⟨_, fun _ => rfl, rfl, rfl, fun hc => ?_⟩
      cases hc
      cases hk
    | inlineFunction => exact ⟨_, fun _ => rfl, rfl, rfl, id⟩
    | qualifier q => exact ⟨_, fun _ => rfl, rfl, rfl, id⟩
    | complex => exact ⟨_, fun _ => rfl, rfl, rfl, id⟩
    | _ => cases hk
  | _ => cases hk

theorem add?_name {n : String} {type : CType} (hnamed : acc.named = none)
    (hwords : Counting.isEmpty acc.words = true) (hn : sc.typeName? n = some type) :
    acc.add? sc (.ident n) = some { acc with named := some type } := by
  simp [Specifiers.add?, hnamed, hwords, hn]

/-- A name by itself is a specifier, or it ends them. -/
theorem of_gives_specifiers_name {n : String} (ht : t.kind = .ident n)
    (h : Gives (specifiers stop acc sc (t :: ts)) v r) :
    (∃ type, acc.named = none ∧ Counting.isEmpty acc.words = true ∧ sc.typeName? n = some type ∧
      Gives (specifiers stop { acc with named := some type } sc ts) v r) ∨ r = t :: ts := by
  cases ha : acc.add? sc t.kind with
  | some acc' =>
    rw [gives_specifiers_add_iff ha] at h
    rw [ht, Specifiers.add?] at ha
    split at ha
    · rename_i hempty
      obtain ⟨type, hn, rfl⟩ := Option.map_eq_some_iff.1 ha
      exact .inl ⟨type, Option.isNone_iff_eq_none.1 hempty.1, hempty.2, hn, h⟩
    · cases ha
  | none => exact .inr (h.unique (gives_specifiers_stop ts ha (by simp [ht]) (by simp [ht]))).2

/-! ## 4. Sequences that are read -/

/-- Behind a type that has been named, no other one is, and the scope stays. -/
theorem scope_of_named (hS : Specifying tally S tally') (hn : acc.named.isSome = true)
    (h : Gives (specifiers stop acc sc (placed S)) v []) : v.2 = sc := by
  induction hS generalizing acc with
  | nil =>
    obtain rfl := of_gives_specifiers_nil h
    rfl
  | modifier hk _ ih =>
    obtain ⟨acc', ha, hnamed, -⟩ := add?_modifier hk acc
    rw [placed_cons, gives_specifiers_add_iff (ha sc)] at h
    exact ih (hnamed ▸ hn) h
  | builtin w _ ih =>
    rw [placed_cons, gives_specifiers_add_iff rfl] at h
    exact ih (by exact hn) h
  | tag n hw hS _ =>
    rw [placed_cons, placed_cons, gives_specifiers_mention_iff hw rfl rfl hS.heads] at h
    rw [h.1] at hn
    cases hn
  | name n _ _ _ =>
    rcases of_gives_specifiers_name rfl h with ⟨type, hnone, -⟩ | hr
    · rw [hnone] at hn
      cases hn
    · cases hr

/-- Specifiers without a tag and without a name leave the scope as it is. -/
theorem scope_of_unnamed (hS : Specifying tally S tally') (hnamed : tally'.named = false)
    (h : Gives (specifiers stop acc sc (placed S)) v []) : v.2 = sc := by
  induction hS generalizing acc with
  | nil =>
    obtain rfl := of_gives_specifiers_nil h
    rfl
  | modifier hk _ ih =>
    obtain ⟨acc', ha, -⟩ := add?_modifier hk acc
    rw [placed_cons, gives_specifiers_add_iff (ha sc)] at h
    exact ih hnamed h
  | builtin w _ ih =>
    rw [placed_cons, gives_specifiers_add_iff rfl] at h
    exact ih hnamed h
  | tag _ _ hS | name _ _ hS =>
    rw [hS.named_of rfl] at hnamed
    cases hnamed

/-- **Reading keeps the tally** of a `Specifying` sequence. -/
theorem tally_of_specifying (hS : Specifying tally S tally') (hacc : acc.tally = tally)
    (h : Gives (specifiers stop acc sc (placed S)) v []) : v.1.tally = tally' := by
  induction hS generalizing acc sc with
  | nil =>
    obtain rfl := of_gives_specifiers_nil h
    exact hacc
  | modifier hk _ ih =>
    obtain ⟨acc', ha, hnamed, hwords, -⟩ := add?_modifier hk acc
    rw [placed_cons, gives_specifiers_add_iff (ha sc)] at h
    refine ih ?_ h
    rw [← hacc, Specifiers.tally, hnamed, hwords]
    rfl
  | builtin w _ ih =>
    rw [placed_cons, gives_specifiers_add_iff rfl] at h
    exact ih (by rw [← hacc]; rfl) h
  | tag n hw hS ih =>
    rw [placed_cons, placed_cons, gives_specifiers_mention_iff hw rfl rfl hS.heads] at h
    obtain ⟨-, type, sc₁, -, h⟩ := h
    exact ih (by rw [← hacc]; rfl) h
  | name n _ _ ih =>
    rcases of_gives_specifiers_name rfl h with ⟨type, -, -, -, h⟩ | hr
    · exact ih (by rw [← hacc]; rfl) h
    · cases hr

/-- Specifiers without `typedef` declare no synonym. -/
theorem storage_of_specifying (hS : Specifying tally S tally')
    (h : Gives (specifiers stop acc sc (placed S)) v [])
    (hv : v.1.storage = some .typeSynonym) : acc.storage = some .typeSynonym := by
  induction hS generalizing acc sc with
  | nil =>
    obtain rfl := of_gives_specifiers_nil h
    exact hv
  | modifier hk _ ih =>
    obtain ⟨acc', ha, -, -, hstorage⟩ := add?_modifier hk acc
    rw [placed_cons, gives_specifiers_add_iff (ha sc)] at h
    exact hstorage (ih h)
  | builtin w _ ih =>
    rw [placed_cons, gives_specifiers_add_iff rfl] at h
    have hstorage := ih h
    exact hstorage
  | tag n hw hS ih =>
    rw [placed_cons, placed_cons, gives_specifiers_mention_iff hw rfl rfl hS.heads] at h
    obtain ⟨-, type, sc₁, -, h⟩ := h
    have hstorage := ih h
    exact hstorage
  | name n _ _ ih =>
    rcases of_gives_specifiers_name rfl h with ⟨type, -, -, -, h⟩ | hr
    · have hstorage := ih h
      exact hstorage
    · cases hr

/-- **A `Specifying` sequence is read in front of a declarator as it is read by itself.** -/
theorem gives_specifiers_append (hS : Specifying tally S tally')
    (h : Gives (specifiers stop acc sc (placed S)) v [])
    (hX : Heads (fun k => k.beginsItem = true ∧ v.1.add? v.2 k = none) X) :
    Gives (specifiers stop acc sc (placed S ++ X)) v X := by
  induction hS generalizing acc sc with
  | nil =>
    obtain rfl := of_gives_specifiers_nil h
    cases X with
    | nil => exact gives_specifiers_end nofun
    | cons t X =>
      have hk := heads_cons.1 hX
      refine gives_specifiers_stop X hk.2 ?_ ?_
      · intro key ht
        rw [ht] at hk
        cases hk.1
      · intro ht
        rw [ht] at hk
        cases hk.1
  | modifier hk _ ih =>
    obtain ⟨acc', ha, -⟩ := add?_modifier hk acc
    rw [placed_cons, gives_specifiers_add_iff (ha sc)] at h
    exact gives_specifiers_add acc' (ha sc) (ih h)
  | builtin w _ ih =>
    rw [placed_cons, gives_specifiers_add_iff rfl] at h
    exact gives_specifiers_add _ rfl (ih h)
  | tag n hw hS ih =>
    rw [placed_cons, placed_cons, gives_specifiers_mention_iff hw rfl rfl hS.heads] at h
    obtain ⟨hn, type, sc₁, hm, h⟩ := h
    have hheads := (hS.heads_append (hX.imp fun _ h => h.1)).imp fun _ h => h.1
    exact (gives_specifiers_mention_iff hw rfl rfl hheads).2 ⟨hn, type, sc₁, hm, ih h⟩
  | name n _ _ ih =>
    rcases of_gives_specifiers_name rfl h with ⟨type, hnamed, hwords, hn, h⟩ | hr
    · exact gives_specifiers_add _ (add?_name hnamed hwords hn) (ih h)
    · cases hr

/-- What is read in front of a declarator is the whole sequence, if its names stand for types. -/
theorem gives_specifiers_alone (hS : Specifying tally S tally')
    (hnames : ∀ n ∈ bareNames S, (sc.typeName? n).isSome = true)
    (hacc : acc.tally = tally)
    (hX : Heads (·.beginsItem = true) X) (h : Gives (specifiers stop acc sc (placed S ++ X)) v r) :
    ∃ w, Gives (specifiers stop acc sc (placed S)) w [] := by
  induction hS generalizing acc sc with
  | nil => exact ⟨_, gives_specifiers_end nofun⟩
  | @modifier _ _ k S hk _ ih =>
    obtain ⟨acc', ha, hnamed, hwords, -⟩ := add?_modifier hk acc
    rw [placed_cons, List.cons_append, gives_specifiers_add_iff (ha sc)] at h
    have hacc' : acc'.tally = acc.tally := by
      rw [Specifiers.tally, hnamed, hwords, Specifiers.tally]
    obtain ⟨w, h⟩ := ih (bareNames_modifier hk S ▸ hnames) (hacc'.trans hacc) h
    exact ⟨w, gives_specifiers_add acc' (ha sc) h⟩
  | builtin w hS ih =>
    rw [placed_cons, List.cons_append, gives_specifiers_add_iff rfl] at h
    obtain ⟨w, h⟩ := ih hnames (by rw [← hacc]; rfl) h
    exact ⟨w, gives_specifiers_add _ rfl h⟩
  | @tag _ _ S w n hw hS ih =>
    have hheads := (hS.heads_append hX).imp fun _ h => h.1
    rw [placed_cons, placed_cons, List.cons_append, List.cons_append,
      gives_specifiers_mention_iff hw rfl rfl hheads] at h
    obtain ⟨hn, type, sc₁, hm, h⟩ := h
    have hnone : ∀ m ∈ bareNames S, (sc₁.typeName? m).isSome = true := by
      rw [hS.bareNames_eq_nil rfl]
      exact fun m hm => nomatch hm
    obtain ⟨w', h⟩ := ih hnone (by rw [← hacc]; rfl) h
    exact ⟨w', (gives_specifiers_mention_iff hw rfl rfl hS.heads).2 ⟨hn, type, sc₁, hm, h⟩⟩
  | name n ht hS ih =>
    obtain ⟨hnamed, hwords⟩ := Specifiers.tally_typed_eq_false (hacc ▸ ht)
    obtain ⟨type, hn⟩ := Option.isSome_iff_exists.1 (hnames n (List.mem_cons_self ..))
    have ha : acc.add? sc (.ident n) = some { acc with named := some type } :=
      add?_name hnamed hwords hn
    rw [placed_cons, List.cons_append, gives_specifiers_add_iff ha] at h
    obtain ⟨w, h⟩ := ih (fun m hm => hnames m (List.mem_cons_of_mem _ hm)) (by rw [← hacc]; rfl) h
    exact ⟨w, gives_specifiers_add _ ha h⟩

/-- **A sequence that has been read is read again with the same result**, in a scope to which the
one it left `Grows`, as long as its names have not come to stand for classes. -/
theorem gives_specifiers_again (hS : Specifying tally S tally')
    (h : Gives (specifiers stop acc sc (placed S)) v []) (hgrows : v.2.Grows C sc₂)
    (hbare : ∀ n ∈ bareNames S, ¬C n) :
    Gives (specifiers stop acc sc₂ (placed S)) (v.1, sc₂) [] := by
  induction hS generalizing acc sc with
  | nil =>
    obtain rfl := of_gives_specifiers_nil h
    exact gives_specifiers_end nofun
  | @modifier _ _ k S hk _ ih =>
    obtain ⟨acc', ha, -⟩ := add?_modifier hk acc
    rw [placed_cons, gives_specifiers_add_iff (ha sc)] at h
    exact gives_specifiers_add acc' (ha sc₂) (ih h (bareNames_modifier hk S ▸ hbare))
  | builtin w _ ih =>
    rw [placed_cons, gives_specifiers_add_iff rfl] at h
    exact gives_specifiers_add _ rfl (ih h hbare)
  | @tag _ _ S w n hw hS ih =>
    rw [placed_cons, placed_cons, gives_specifiers_mention_iff hw rfl rfl hS.heads] at h
    obtain ⟨hn, type, sc₁, hm, h⟩ := h
    have hsc : v.2 = sc₁ := scope_of_named hS rfl h
    have hm₂ := Scope.mention?_again hm (hsc ▸ hgrows)
    exact (gives_specifiers_mention_iff hw rfl rfl hS.heads).2
      ⟨hn, type, sc₂, hm₂, ih h (bareNames_tag hw n S ▸ hbare)⟩
  | @name _ _ S n _ hS ih =>
    rcases of_gives_specifiers_name rfl h with ⟨type, hnamed, hwords, hn, h⟩ | hr
    · have hsc : v.2 = sc := scope_of_named hS rfl h
      have hn₂ : sc₂.typeName? n = some type := by
        rcases hgrows.names n with hsame | ⟨hc, -⟩
        · rw [hsame, hsc, hn]
        · exact absurd hc (hbare n (List.mem_cons_self ..))
      exact gives_specifiers_add _ (add?_name hnamed hwords hn₂)
        (ih h fun m hm => hbare m (List.mem_cons_of_mem _ hm))
    · cases hr

end TypeLedger
