import TypeLedger.Proofs.Grammar.Coherent
import TypeLedger.Proofs.Grammar.Influence

/-!
# Texts with one front and two tails

* `nested`: every bracket of a text has its partner. `TokenKind.groups?` says what a token does to
  the groups that are open.
* `Shares`: two texts begin alike, and go on with two tails where no group of theirs is open any
  more. A tail begins with a mark that no declarator has outside of its brackets.
* `Scope.Grows`: what is declared stays declared, and the only names that come to stand for another
  type are those of classes.
* One lemma for each part of the grammar that does not meet itself says that it reads the two texts
  alike, and leaves texts of this kind again.
-/

namespace TypeLedger

/-! ## 1. Nested brackets -/

namespace Mark

variable {m : Mark}

theorem opens_eq_isSome (m : Mark) : m.opens = m.partner?.isSome := by
  cases m <;> rfl

theorem partner?_of_closes (h : m.closes = true) : m.partner? = none := by
  cases m <;> first | rfl | cases h

end Mark

/-- The marks that are to close the groups which are open behind a token, the innermost first. A
closing mark has to be that of the innermost group. -/
def TokenKind.groups? (groups : List Mark) : TokenKind → Option (List Mark)
  | .mark m =>
    match m.partner? with
    | some m' => some (m' :: groups)
    | none =>
      if m.closes then if groups.head? = some m then some groups.tail else none else some groups
  | _ => some groups

/-- The text closes the groups that are open and those that it opens, and the tokens outside of them
are as `outside` says. -/
def nested (outside : TokenKind → Bool) : List Mark → List TokenKind → Bool
  | groups, [] => groups.isEmpty
  | groups, k :: ks =>
    (!groups.isEmpty || outside k) &&
      (k.groups? groups).any fun groups' => nested outside groups' ks

namespace TokenKind

/-- The mark stands behind a declarator: it separates it from the next one, ends the declaration, or
begins an initializer. -/
def endsItem : TokenKind → Bool
  | .mark .comma | .mark .semicolon | .mark .equals => true
  | _ => false

/-- The token may stand in a declarator outside of its brackets. -/
def inDeclarator (k : TokenKind) : Bool := !k.endsItem && k != .mark .braceOpen

variable {groups groups' : List Mark} {m m' : Mark}

theorem groups?_open (hm : m.partner? = some m') :
    (mark m).groups? groups = some (m' :: groups) := by
  simp only [groups?, hm]

/-- A closing mark is that of the innermost group. -/
theorem of_groups?_close (hm : m.closes = true) (h : (mark m).groups? groups = some groups') :
    groups = m :: groups' := by
  have hp := Mark.partner?_of_closes hm
  cases groups with
  | nil => simp [groups?, hp, hm] at h
  | cons m₁ groups =>
    simp only [groups?, hp, hm, ↓reduceIte, List.head?_cons, Option.some.injEq, List.tail_cons] at h
    split at h
    · rename_i he
      obtain rfl := Option.some.inj h
      rw [he]
    · cases h

theorem groups?_of_not_bracket {k : TokenKind} (h : k.isBracket = false) :
    k.groups? groups = some groups := by
  cases k with
  | mark m =>
    rw [isBracket, Bool.or_eq_false_iff, Mark.opens_eq_isSome, Option.isSome_eq_false_iff,
      Option.isNone_iff_eq_none] at h
    simp [groups?, h.1, h.2]
  | _ => rfl

/-- A token behind which the groups `outer` stay open. Those inside of them are as many as text that
is passed over counts. -/
theorem groups?_append {k : TokenKind} {own outer : List Mark}
    (h : k.groups? (own ++ outer) = some groups)
    (hclose : ∀ m, k = .mark m → m.closes = true → own ≠ []) :
    ∃ own', own' ++ outer = groups ∧ own'.length = depthBehind own.length k := by
  cases hb : k.isBracket with
  | false =>
    rw [groups?_of_not_bracket hb, Option.some.injEq] at h
    exact ⟨own, h, (depthBehind_token (t := ⟨k, ⟨0, 0⟩⟩) hb _).symm⟩
  | true =>
    cases k with
    | mark m =>
      cases hm : m.partner? with
      | some m' =>
        rw [groups?_open hm, Option.some.injEq] at h
        exact ⟨m' :: own, h, (depthBehind_open hm _).symm⟩
      | none =>
        have hopens : m.opens = false := by rw [Mark.opens_eq_isSome, hm, Option.isSome_none]
        have hcloses : m.closes = true := by rwa [isBracket, hopens, Bool.false_or] at hb
        obtain ⟨m₁, own, rfl⟩ := List.exists_cons_of_ne_nil (hclose m rfl hcloses)
        obtain ⟨rfl, hgroups⟩ := List.cons.inj (of_groups?_close hcloses h)
        exact ⟨own, hgroups, by simp [depthBehind, hopens, hcloses]⟩
    | _ => cases hb

end TokenKind

/-! ## 2. Scopes that have grown -/

namespace Scope

/-- Records and enumerations that are declared under a name stay so, and a name stands for what it
stood for, unless it is one of `C` and has come to be that of a class. -/
structure Grows (C : String → Prop) (sc sc' : Scope) : Prop where
  records : ∀ n id, sc.context.findRecord? n = some id → sc'.context.findRecord? n = some id
  enums : ∀ n id, sc.context.findEnum? n = some id → sc'.context.findEnum? n = some id
  names : ∀ n, sc'.typeName? n = sc.typeName? n ∨
    C n ∧ ∃ id, sc'.context.findRecord? n = some id ∧ sc'.typeName? n = some (.record .none id)

variable {C : String → Prop} {sc sc₁ sc₂ : Scope}

theorem Grows.refl (C : String → Prop) (sc : Scope) : sc.Grows C sc :=
  ⟨fun _ _ h => h, fun _ _ h => h, fun _ => .inl rfl⟩

theorem Grows.trans (h : sc.Grows C sc₁) (h' : sc₁.Grows C sc₂) : sc.Grows C sc₂ := by
  refine ⟨fun n id hid => h'.records n id (h.records n id hid),
    fun n id hid => h'.enums n id (h.enums n id hid), fun n => ?_⟩
  rcases h'.names n with hn | hn
  · rcases h.names n with hn' | ⟨hc, id, hid, hn'⟩
    · exact .inl (hn.trans hn')
    · exact .inr ⟨hc, id, h'.records n id hid, hn.trans hn'⟩
  · exact .inr hn

/-- Another context, in which nothing is lost. -/
theorem grows_context {ctx : Context}
    (hr : ∀ n id, sc.context.findRecord? n = some id → ctx.findRecord? n = some id)
    (he : ∀ n id, sc.context.findEnum? n = some id → ctx.findEnum? n = some id) :
    sc.Grows C { sc with context := ctx } :=
  ⟨hr, he, fun _ => .inl rfl⟩

theorem grows_nameClass {key : RecordKey} {name : Option String} {id : RecordId}
    (hid : ∀ n, name = some n → sc.context.findRecord? n = some id)
    (hc : key = .classKey → ∀ n, name = some n → C n) :
    sc.Grows C (nameClass sc key name id) := by
  unfold nameClass
  split
  · rename_i n
    refine ⟨fun _ _ h => h, fun _ _ h => h, fun m => ?_⟩
    by_cases hm : m = n
    · subst hm
      exact .inr ⟨hc rfl m rfl, id, hid m rfl, Keyed.lookup_set_self _ _ _⟩
    · exact .inl (Keyed.lookup_set_of_ne hm _ _)
  · exact .refl C sc

/-- A record that is mentioned is found under its name afterwards. -/
theorem grows_tagged {key : RecordKey} {name : Option String} {hasBody : Bool} {id : RecordId}
    (h : tagged sc key name hasBody = .ok (id, sc₁)) :
    sc.Grows C sc₁ ∧ ∀ n, name = some n → sc₁.context.findRecord? n = some id := by
  have hnew : ∀ name, (∀ n, name = some n → sc.context.findRecord? n = none) →
      sc.Grows C { sc with context := (sc.context.declareRecord key name).2 } := by
    refine fun name hn => grows_context (fun m id hid => ?_) fun _ _ h => h
    rw [Context.findRecord?_declareRecord, if_neg, hid]
    rintro rfl
    rw [hn m rfl] at hid
    cases hid
  unfold tagged at h
  split at h
  · cases h
    exact ⟨hnew none fun n hn => absurd hn (Option.some_ne_none n).symm,
      fun n hn => absurd hn (Option.some_ne_none n).symm⟩
  · rename_i n
    split at h
    · rename_i id' hid
      split at h
      · cases h
      · cases h
        refine ⟨.refl C sc, fun m hm => ?_⟩
        obtain rfl := Option.some.inj hm
        exact hid
    · rename_i hid
      cases h
      exact ⟨hnew (some n) fun m hm => Option.some.inj hm ▸ hid,
        fun m hm => (Context.findRecord?_declareRecord key (some n) m).trans (if_pos hm)⟩

theorem grows_completeRecord (id : RecordId) (ms : List MemberDecl) (bs : List BaseDecl) :
    sc.Grows C { sc with context := sc.context.completeRecord id ms bs } :=
  grows_context (fun n _ h => (Context.findRecord?_completeRecord id ms bs n).trans h)
    fun _ _ h => h

theorem grows_declareEnum {name : Option String}
    (hn : ∀ n, name = some n → sc.context.findEnum? n = none) :
    sc.Grows C { sc with context := (sc.context.declareEnum name).2 } := by
  refine grows_context (fun _ _ h => h) fun m id hid => ?_
  have hne : ¬ name = some m := by
    rintro rfl
    rw [hn m rfl] at hid
    cases hid
  rw [← hid]
  simp only [Context.findEnum?, Context.declareEnum, lastPosition?_append, decide_eq_true_eq, hne,
    ↓reduceIte]

end Scope

/-! ## 3. Two tails -/

/-- Two texts have their first tokens in common, which close the groups that are open and then those
that they open; behind them, one goes on with `x` and the other with `y`. Every name that they have
behind the keyword of classes is one of `C`. -/
inductive Shares (C : String → Prop) (x y : List Token) : List Mark → List Token → List Token → Prop
  | tails (hx : Heads (·.endsItem = true) x) (hy : Heads (·.endsItem = true) y) :
      Shares C x y [] x y
  | keep {groups groups' : List Mark} {t : Token} {r r' : List Token}
    (hg : t.kind.groups? groups = some groups') (hi : groups = [] → t.kind.inDeclarator = true)
    (hc : t.kind = .keyword (.record .classKey) → ∀ n, (optionalName r).value = some n → C n)
    (h : Shares C x y groups' r r') : Shares C x y groups (t :: r) (t :: r')

variable {C : String → Prop} {x y ts us : List Token} {groups groups' : List Mark} {m : Mark}
  {stop : Location} {sc sc₁ : Scope}

theorem takeIdent?_of_endsItem (hx : Heads (·.endsItem = true) x) : takeIdent? x = none :=
  takeIdent?_eq_none (hx.imp fun k hk name hname => by
    rw [hname] at hk
    cases hk)

/-- A name is seen at the first token. -/
theorem optionalName_cons (t : Token) (r r' : List Token) :
    (optionalName (t :: r)).value = (optionalName (t :: r')).value := by
  obtain ⟨k, l⟩ := t
  cases k with
  | _ => rfl

/-- A text of `nested` brackets in front of both tails. -/
theorem shares_of_nested (hx : Heads (·.endsItem = true) x) (hy : Heads (·.endsItem = true) y)
    (h : nested TokenKind.inDeclarator groups (ts.map Token.kind) = true)
    (hc : ∀ n, Mentions ts .classKey n → C n) : Shares C x y groups (ts ++ x) (ts ++ y) := by
  induction ts generalizing groups with
  | nil =>
    obtain rfl : groups = [] := List.isEmpty_iff.1 h
    exact .tails hx hy
  | cons t ts ih =>
    rw [List.map_cons, nested, Bool.and_eq_true, Option.any_eq_true] at h
    obtain ⟨hi, groups', hg, h⟩ := h
    refine .keep hg ?_ ?_ (ih h fun n hn => hc n (hn.trans (List.suffix_cons _ _).isInfix))
    · rintro rfl
      exact hi
    · intro hclass n hn
      -- the name is no tail, so it stands in the text behind the keyword
      refine hc n (infix_optionalName hclass ?_)
      cases ts with
      | nil =>
        have hn' : (optionalName x).value = some n := hn
        rw [(optionalName_of_none (takeIdent?_of_endsItem hx)).1] at hn'
        cases hn'
      | cons u ts => rwa [optionalName_cons u ts (ts ++ x)]

namespace Shares

/-- A text that goes on with no group open is a tail, or begins with a token of a declarator. -/
theorem cases (h : Shares C x y groups ts us) :
    (groups = [] ∧ ts = x ∧ us = y) ∨
      ∃ t r, ts = t :: r ∧ (groups = [] → t.kind.inDeclarator = true) := by
  cases h with
  | tails => exact .inl ⟨rfl, rfl, rfl⟩
  | keep _ hi => exact .inr ⟨_, _, rfl, hi⟩

protected theorem symm (h : Shares C x y groups ts us) : Shares C y x groups us ts := by
  induction h with
  | tails hx hy => exact .tails hy hx
  | keep hg hi hc h ih =>
    refine .keep hg hi (fun hk n hn => hc hk n ?_) ih
    cases h with
    | tails hx hy =>
      rw [(optionalName_of_none (takeIdent?_of_endsItem hy)).1] at hn
      cases hn
    | keep => rwa [optionalName_cons]

/-- While a group is open, the texts go on with the same token. -/
theorem cases_cons (h : Shares C x y groups ts us) (hne : groups ≠ []) :
    ∃ k l r r' groups', ts = ⟨k, l⟩ :: r ∧ us = ⟨k, l⟩ :: r' ∧ k.groups? groups = some groups' ∧
      (k = .keyword (.record .classKey) → ∀ n, (optionalName r).value = some n → C n) ∧
      Shares C x y groups' r r' := by
  cases h with
  | tails => exact absurd rfl hne
  | keep hg _ hc h => exact ⟨_, _, _, _, _, rfl, rfl, hg, hc, h⟩

/-- The first tokens are the same, unless each text has come to its tail. -/
theorem head?_eq (h : Shares C x y (m :: groups) ts us) : us.head? = ts.head? := by
  cases h
  rfl

end Shares

/-! ## 4. Single tokens -/

theorem Heads.ne_mark (hx : Heads (·.endsItem = true) x)
    (hm : (TokenKind.mark m).endsItem = false) :
    Heads (· ≠ .mark m) x :=
  hx.imp fun k hk he => by
    rw [he, hm] at hk
    cases hk

namespace Shares

/-- Whether a mark stands next, the texts agree on, unless it may begin a tail. -/
theorem startsWith_eq (h : Shares C x y groups ts us)
    (hm : groups = [] → (TokenKind.mark m).endsItem = false) :
    startsWith m us = startsWith m ts := by
  cases h with
  | tails hx hy =>
    rw [startsWith_eq_false (hx.ne_mark (hm rfl)), startsWith_eq_false (hy.ne_mark (hm rfl))]
  | keep => rfl

/-- A mark that begins no tail is at the front of both texts or of neither. -/
theorem take? (h : Shares C x y groups ts us)
    (hm : groups = [] → (TokenKind.mark m).endsItem = false) :
    (take? m ts = none ∧ take? m us = none) ∨
      ∃ r r' hlt hlt', take? m ts = some ⟨(), r, hlt⟩ ∧ take? m us = some ⟨(), r', hlt'⟩ ∧
        ∀ groups', (TokenKind.mark m).groups? groups = some groups' →
          Shares C x y groups' r r' := by
  cases h with
  | tails hx hy =>
    exact .inl ⟨take?_eq_none (hx.ne_mark (hm rfl)), take?_eq_none (hy.ne_mark (hm rfl))⟩
  | @keep _ groups₁ t r r' hg hi hc h =>
    by_cases ht : t.kind = .mark m
    · refine .inr ⟨r, r', _, _, take?_of_kind ht, take?_of_kind ht, fun groups' hg' => ?_⟩
      rw [ht, hg'] at hg
      cases hg
      exact h
    · exact .inl ⟨take?_of_ne ht, take?_of_ne ht⟩

theorem takeIdent? (h : Shares C x y groups ts us) :
    (takeIdent? ts = none ∧ takeIdent? us = none) ∨
      ∃ name r r' hlt hlt', takeIdent? ts = some ⟨name, r, hlt⟩ ∧
        takeIdent? us = some ⟨name, r', hlt'⟩ ∧ Shares C x y groups r r' := by
  cases h with
  | tails hx hy => exact .inl ⟨takeIdent?_of_endsItem hx, takeIdent?_of_endsItem hy⟩
  | @keep _ groups' t r r' hg hi hc h =>
    obtain ⟨k, l⟩ := t
    cases k with
    | ident name =>
      cases hg
      exact .inr ⟨name, r, r', _, _, rfl, rfl, h⟩
    | _ => exact .inl ⟨rfl, rfl⟩

theorem optionalName (h : Shares C x y groups ts us) :
    (optionalName us).value = (optionalName ts).value ∧
      Shares C x y groups (optionalName ts).rest (optionalName us).rest := by
  unfold TypeLedger.optionalName
  rcases h.takeIdent? with ⟨hn, hn'⟩ | ⟨name, r, r', _, _, hs, hs', hr⟩
  · rw [hn, hn']
    exact ⟨rfl, h⟩
  · rw [hs, hs']
    exact ⟨rfl, hr⟩

theorem qualifierRun (h : Shares C x y groups ts us) :
    (qualifierRun us).value = (qualifierRun ts).value ∧
      Shares C x y groups (qualifierRun ts).rest (qualifierRun us).rest := by
  induction h with
  | tails hx hy =>
    have hno (k : TokenKind) (hk : k.endsItem = true) : isQualifierKind k = false := by
      cases k with
      | mark m => rfl
      | _ => cases hk
    obtain ⟨hv, hr⟩ := qualifierRun_of_heads (hx.imp hno)
    obtain ⟨hv', hr'⟩ := qualifierRun_of_heads (hy.imp hno)
    rw [hv, hr, hv', hr']
    exact ⟨rfl, .tails hx hy⟩
  | @keep groups groups' t r r' hg hi hc h ih =>
    cases hq : isQualifierKind t.kind with
    | true =>
      obtain ⟨k, l⟩ := t
      cases k with
      | keyword w =>
        cases w with
        | qualifier q =>
          cases hg
          rw [(qualifierRun_cons r rfl).1, (qualifierRun_cons r rfl).2,
            (qualifierRun_cons r' rfl).1, (qualifierRun_cons r' rfl).2, ih.1]
          exact ⟨rfl, ih.2⟩
        | _ => cases hq
      | _ => cases hq
    | false =>
      have hheads (r : List Token) : Heads (fun k => isQualifierKind k = false) (t :: r) :=
        heads_cons.2 hq
      obtain ⟨hv, hr⟩ := qualifierRun_of_heads (hheads r)
      obtain ⟨hv', hr'⟩ := qualifierRun_of_heads (hheads r')
      rw [hv, hr, hv', hr']
      exact ⟨rfl, .keep hg hi hc h⟩

theorem takePointer? (h : Shares C x y groups ts us) :
    (takePointer? ts = none ∧ takePointer? us = none) ∨
      ∃ kind r r' hlt hlt', takePointer? ts = some ⟨kind, r, hlt⟩ ∧
        takePointer? us = some ⟨kind, r', hlt'⟩ ∧ Shares C x y groups r r' := by
  cases h with
  | tails hx hy =>
    have hno (k : TokenKind) (hk : k.endsItem = true) : isPointerKind k = false := by
      cases k with
      | mark m => cases m <;> first | rfl | cases hk
      | _ => rfl
    exact .inl ⟨takePointer?_eq_none (hx.imp hno), takePointer?_eq_none (hy.imp hno)⟩
  | @keep _ groups' t r r' hg hi hc h =>
    by_cases hm : ∃ m kind, t.kind = .mark m ∧ m.pointerKind? = some kind
    · obtain ⟨m, kind, ht, hm⟩ := hm
      refine .inr ⟨kind, r, r', _, _, takePointer?_of_kind ht hm, takePointer?_of_kind ht hm, ?_⟩
      have hb : t.kind.isBracket = false := by
        rw [ht]
        cases m <;> first | rfl | cases hm
      rw [TokenKind.groups?_of_not_bracket hb] at hg
      cases hg
      exact h
    · have hk : isPointerKind t.kind = false := by
        obtain ⟨k, l⟩ := t
        cases k with
        | mark m =>
          refine Bool.eq_false_iff.2 fun hsome => ?_
          obtain ⟨kind, hkind⟩ := Option.isSome_iff_exists.1 hsome
          exact hm ⟨m, kind, rfl, hkind⟩
        | _ => rfl
      exact .inl ⟨takePointer?_eq_none (heads_cons.2 hk), takePointer?_eq_none (heads_cons.2 hk)⟩

theorem pointerRun {ts us : List Token} (h : Shares C x y groups ts us) :
    (pointerRun us).value = (pointerRun ts).value ∧
      Shares C x y groups (pointerRun ts).rest (pointerRun us).rest := by
  rcases h.takePointer? with ⟨hn, hn'⟩ | ⟨kind, r, r', hlt, _, hs, hs', hr⟩
  · rw [(pointerRun_of_none hn).1, (pointerRun_of_none hn).2, (pointerRun_of_none hn').1,
      (pointerRun_of_none hn').2]
    exact ⟨rfl, h⟩
  · have hq := (TypeLedger.qualifierRun r).short
    obtain ⟨hqv, hqr⟩ := hr.qualifierRun
    obtain ⟨hv, hrest⟩ := hqr.pointerRun
    rw [(pointerRun_of_some hs).1, (pointerRun_of_some hs).2, (pointerRun_of_some hs').1,
      (pointerRun_of_some hs').2, hqv, hv]
    exact ⟨rfl, hrest⟩
termination_by ts.length

theorem closedSize?_some (h : Shares C x y (.bracketClose :: groups) ts us) {size : ArraySize}
    {r : List Token} {hlt : r.length < ts.length} (hs : closedSize? ts = some ⟨size, r, hlt⟩) :
    ∃ r' hlt', closedSize? us = some ⟨size, r', hlt'⟩ ∧ Shares C x y groups r r' := by
  unfold TypeLedger.closedSize? at hs
  split at hs
  · cases hs
    obtain ⟨⟩ | ⟨⟨⟩, -, -, h⟩ := h
    obtain ⟨⟩ | ⟨⟨⟩, -, -, h⟩ := h
    exact ⟨_, _, rfl, h⟩
  · cases hs
    obtain ⟨⟩ | ⟨⟨⟩, -, -, h⟩ := h
    obtain ⟨⟩ | ⟨⟨⟩, -, -, h⟩ := h
    exact ⟨_, _, rfl, h⟩
  · cases hs

/-- A size and its closing bracket. -/
theorem closedSize? (h : Shares C x y (.bracketClose :: groups) ts us) :
    (closedSize? ts = none ∧ closedSize? us = none) ∨
      ∃ size r r' hlt hlt', closedSize? ts = some ⟨size, r, hlt⟩ ∧
        closedSize? us = some ⟨size, r', hlt'⟩ ∧ Shares C x y groups r r' :=
  both_or_neither (fun _ _ _ hs => h.closedSize?_some hs) fun _ _ _ hs hn => by
    obtain ⟨_, _, hs, -⟩ := h.symm.closedSize?_some hs
    rw [hn] at hs
    cases hs

theorem takeNoParameters?_some (h : Shares C x y (.parenClose :: groups) ts us) {v : Unit}
    {r : List Token} {hlt : r.length < ts.length} (hs : takeNoParameters? ts = some ⟨v, r, hlt⟩) :
    ∃ r' hlt', takeNoParameters? us = some ⟨v, r', hlt'⟩ ∧ Shares C x y groups r r' := by
  unfold TypeLedger.takeNoParameters? at hs
  split at hs
  · cases hs
    obtain ⟨⟩ | ⟨⟨⟩, -, -, h⟩ := h
    exact ⟨_, _, rfl, h⟩
  · cases hs
    obtain ⟨⟩ | ⟨⟨⟩, -, -, h⟩ := h
    obtain ⟨⟩ | ⟨⟨⟩, -, -, h⟩ := h
    exact ⟨_, _, rfl, h⟩
  · cases hs

theorem takeNoParameters? (h : Shares C x y (.parenClose :: groups) ts us) :
    (takeNoParameters? ts = none ∧ takeNoParameters? us = none) ∨
      ∃ v r r' hlt hlt', takeNoParameters? ts = some ⟨v, r, hlt⟩ ∧
        takeNoParameters? us = some ⟨v, r', hlt'⟩ ∧ Shares C x y groups r r' :=
  both_or_neither (fun _ _ _ hs => h.takeNoParameters?_some hs) fun _ _ _ hs hn => by
    obtain ⟨_, _, hs, -⟩ := h.symm.takeNoParameters?_some hs
    rw [hn] at hs
    cases hs

/-- Whether a parenthesis opens a declarator is seen at the token behind it, which is no tail. -/
theorem takeNested? (h : Shares C x y groups ts us) (sc : Scope) :
    (takeNested? sc ts = none ∧ takeNested? sc us = none) ∨
      ∃ r r' hlt hlt', takeNested? sc ts = some ⟨(), r, hlt⟩ ∧
        takeNested? sc us = some ⟨(), r', hlt'⟩ ∧ Shares C x y (.parenClose :: groups) r r' := by
  unfold TypeLedger.takeNested?
  rcases h.take? (m := .parenOpen) fun _ => rfl with ⟨hn, hn'⟩ | ⟨r, r', hlt, hlt', hs, hs', hr⟩
  · rw [hn, hn']
    exact .inl ⟨rfl, rfl⟩
  · have hr := hr _ rfl
    rw [hs, hs']
    dsimp only
    rw [hr.head?_eq]
    split
    · exact .inr ⟨r, r', hlt, hlt', rfl, rfl, hr⟩
    · exact .inl ⟨rfl, rfl⟩

theorem dropWhile_isArrayWord (h : Shares C x y groups ts us) (hne : groups ≠ []) :
    Shares C x y groups (ts.dropWhile fun t => isArrayWord t.kind)
      (us.dropWhile fun t => isArrayWord t.kind) := by
  induction h with
  | tails => exact absurd rfl hne
  | @keep groups groups' t r r' hg hi hc h ih =>
    by_cases ht : isArrayWord t.kind = true
    · have hb : t.kind.isBracket = false := by
        cases hk : t.kind with
        | mark m =>
          rw [hk] at ht
          cases ht
        | _ => rfl
      rw [TokenKind.groups?_of_not_bracket hb] at hg
      cases hg
      rw [List.dropWhile_cons_of_pos (by exact ht), List.dropWhile_cons_of_pos (by exact ht)]
      exact ih hne
    · rw [List.dropWhile_cons_of_neg (by exact ht), List.dropWhile_cons_of_neg (by exact ht)]
      exact .keep hg hi hc h

theorem baseWords (h : Shares C x y groups ts us) (hne : groups ≠ []) :
    (baseWords us).value = (baseWords ts).value ∧
      Shares C x y groups (baseWords ts).rest (baseWords us).rest := by
  induction h with
  | tails => exact absurd rfl hne
  | @keep groups groups' t r r' hg hi hc h ih =>
    by_cases ha : ∃ a, t.kind = .keyword (.access a)
    · obtain ⟨a, ha⟩ := ha
      rw [ha] at hg
      cases hg
      rw [(baseWords_access ha r).1, (baseWords_access ha r).2, (baseWords_access ha r').1,
        (baseWords_access ha r').2, (ih hne).1]
      exact ⟨rfl, (ih hne).2⟩
    by_cases hv : t.kind = .keyword .virtualBase
    · rw [hv] at hg
      cases hg
      rw [(baseWords_virtual hv r).1, (baseWords_virtual hv r).2, (baseWords_virtual hv r').1,
        (baseWords_virtual hv r').2, (ih hne).1]
      exact ⟨rfl, (ih hne).2⟩
    · have ha := not_exists.1 ha
      rw [(baseWords_other ha hv r).1, (baseWords_other ha hv r).2, (baseWords_other ha hv r').1,
        (baseWords_other ha hv r').2]
      exact ⟨rfl, .keep hg hi hc h⟩

/-- Text that is passed over ends at the mark that closes its own group. -/
theorem skipUntil? {close : Mark} (own : List Mark)
    (h : Shares C x y (own ++ close :: groups) ts us) {r : List Token}
    (hr : skipUntil? (TokenKind.isMark close) own.length ts = some r) :
    ∃ r', skipUntil? (TokenKind.isMark close) own.length us = some r' ∧
      Shares C x y (close :: groups) r r' := by
  generalize hG : own ++ close :: groups = G at h
  induction h generalizing own with
  | tails => simp at hG
  | @keep G G' t s s' hg hi hc h ih =>
    subst hG
    rw [TypeLedger.skipUntil?] at hr ⊢
    split at hr
    · rename_i hstop
      cases hr
      obtain rfl := List.length_eq_zero_iff.1 hstop.1
      rw [if_pos hstop]
      exact ⟨_, rfl, .keep hg hi hc h⟩
    · rename_i hstop
      rw [if_neg hstop]
      -- a closing mark that is not the one looked for closes a group that the text has opened
      obtain ⟨own', rfl, hlen⟩ := TokenKind.groups?_append hg fun m hm hcloses hown => by
        subst hown
        rw [hm] at hg
        obtain ⟨rfl, -⟩ := List.cons.inj (TokenKind.of_groups?_close hcloses hg)
        exact hstop ⟨rfl, TokenKind.isMark_iff.2 hm⟩
      rw [← hlen] at hr ⊢
      exact ih own' hr rfl

end Shares

/-! ## 5. Parts that do not meet themselves -/

variable {stop : Location} {sc : Scope}

/-- A mark that begins no tail. -/
theorem Shares.agrees_expect (h : Shares C x y groups ts us)
    (hm : groups = [] → (TokenKind.mark m).endsItem = false)
    (hg : (TokenKind.mark m).groups? groups = some groups') :
    Agrees (Shares C x y groups') (expect stop m ts) (expect stop m us) := by
  unfold expect
  rcases h.take? hm with ⟨hn, -⟩ | ⟨r, r', _, _, hs, hs', hr⟩
  · rw [hn]
    exact agrees_error
  · rw [hs, hs']
    exact agrees_ok rfl (hr _ hg)

theorem Shares.agrees_skipTo {close : Mark} (h : Shares C x y (close :: groups) ts us) :
    Agrees (Shares C x y (close :: groups)) (skipTo stop (TokenKind.isMark close) ts)
      (skipTo stop (TokenKind.isMark close) us) := by
  rintro ⟨v, r, hlt⟩ hs
  obtain ⟨r', hr', hr⟩ := Shares.skipUntil? [] h (skipUntil?_of_skipTo hs)
  exact ⟨(), r', gives_skipTo_of_skipUntil? hr', rfl, hr⟩

theorem Shares.agrees_skipBody (h : Shares C x y groups ts us) :
    Agrees (Shares C x y groups) (skipBody stop ts) (skipBody stop us) := by
  unfold skipBody
  refine agrees_bind (h.agrees_expect (fun _ => rfl) rfl) fun _ r₁ _ r₁' _ hr₁ => ?_
  refine agrees_bind hr₁.agrees_skipTo fun _ r₂ _ r₂' _ hr₂ => ?_
  exact agrees_bind (hr₂.agrees_expect nofun rfl) fun _ _ _ _ _ hr₃ => agrees_ok rfl hr₃

theorem Shares.agrees_bitWidth (h : Shares C x y groups ts us) (hne : groups ≠ []) :
    Agrees (Shares C x y groups) (bitWidth stop ts) (bitWidth stop us) := by
  obtain ⟨k, l, r, r', groups', rfl, rfl, hg, -, h⟩ := h.cases_cons hne
  unfold bitWidth
  dsimp only
  split
  · cases hg
    split
    · exact agrees_ok rfl h
    · exact agrees_error
  · exact agrees_error

theorem Shares.agrees_optionalWidth (h : Shares C x y groups ts us) (hne : groups ≠ []) :
    Agrees (Shares C x y groups) (optionalWidth stop ts) (optionalWidth stop us) := by
  unfold optionalWidth
  rcases h.take? (m := .colon) (fun _ => rfl) with ⟨hn, hn'⟩ | ⟨r, r', _, _, hs, hs', hr⟩
  · rw [hn, hn']
    exact agrees_ok rfl h
  · rw [hs, hs']
    exact agrees_bind ((hr _ rfl).agrees_bitWidth hne) fun _ _ _ _ _ hr₂ => agrees_ok rfl hr₂

theorem Shares.agrees_labelColon (h : Shares C x y groups ts us) (key : RecordKey) (l : Location) :
    Agrees (Shares C x y groups) (labelColon stop key l ts) (labelColon stop key l us) := by
  unfold labelColon
  split
  · exact h.agrees_expect (fun _ => rfl) rfl
  · exact agrees_error

theorem Shares.agrees_sizeBefore (h : Shares C x y (.bracketClose :: groups) ts us) :
    Agrees (Shares C x y groups) (sizeBefore stop ts) (sizeBefore stop us) := by
  unfold sizeBefore
  rcases h.closedSize? with ⟨hn, hn'⟩ | ⟨size, r, r', _, _, hs, hs', hr⟩
  · rw [hn, hn']
    refine agrees_bind h.agrees_skipTo fun _ r₁ _ r₁' _ hr₁ => ?_
    exact agrees_bind (hr₁.agrees_expect nofun rfl) fun _ _ _ _ _ hr₂ => agrees_ok rfl hr₂
  · rw [hs, hs']
    exact agrees_ok rfl hr

theorem Shares.agrees_arraySuffix (h : Shares C x y (.bracketClose :: groups) ts us) :
    Agrees (Shares C x y groups) (arraySuffix stop ts) (arraySuffix stop us) := by
  unfold arraySuffix
  exact agrees_bind (h.dropWhile_isArrayWord (List.cons_ne_nil _ _)).agrees_sizeBefore
    fun _ _ _ _ _ hr => agrees_ok rfl hr

theorem Shares.agrees_expectIdent (h : Shares C x y groups ts us) :
    Agrees (Shares C x y groups) (expectIdent stop ts) (expectIdent stop us) := by
  unfold expectIdent
  rcases h.takeIdent? with ⟨hn, -⟩ | ⟨name, r, r', _, _, hs, hs', hr⟩
  · rw [hn]
    exact agrees_error
  · rw [hs, hs']
    exact agrees_ok rfl hr

theorem Shares.agrees_baseClause {ts us : List Token} (h : Shares C x y groups ts us)
    (hne : groups ≠ []) :
    Agrees (Shares C x y groups) (baseClause stop sc ts) (baseClause stop sc us) := by
  have h₁ := (TypeLedger.baseWords ts).short
  obtain ⟨hv, hr₁⟩ := h.baseWords hne
  unfold baseClause
  refine agrees_bind hr₁.agrees_expectIdent fun name r₂ h₂ r₂' _ hr₂ => ?_
  simp only [hv]
  cases sc.recordType? name with
  | none => exact agrees_error
  | some type =>
    dsimp only
    rcases hr₂.take? (m := .comma) (absurd · hne) with ⟨hn, hn'⟩ | ⟨r₃, r₃', h₃, _, hs, hs', hr₃⟩
    · rw [hn, hn']
      exact agrees_ok rfl hr₂
    · rw [hs, hs']
      exact agrees_bind ((hr₃ _ rfl).agrees_baseClause hne) fun _ _ _ _ _ hr₄ => agrees_ok rfl hr₄
termination_by ts.length

theorem Shares.agrees_optionalBases (h : Shares C x y groups ts us) (hne : groups ≠ [])
    (key : RecordKey) :
    Agrees (Shares C x y groups) (optionalBases stop key sc ts) (optionalBases stop key sc us) := by
  unfold optionalBases
  rcases h.take? (m := .colon) (fun _ => rfl) with ⟨hn, hn'⟩ | ⟨r, r', _, _, hs, hs', hr⟩
  · rw [hn, hn']
    exact agrees_ok rfl h
  · rw [hs, hs']
    dsimp only
    split
    · exact agrees_bind ((hr _ rfl).agrees_baseClause hne) fun _ _ _ _ _ hr₂ => agrees_ok rfl hr₂
    · exact agrees_error

end TypeLedger
