import TypeLedger.Proofs.Grammar.Locality
import TypeLedger.Proofs.Grammar.Skipped

/-!
# Other contents of skipped text

* `Refilled`: two texts that differ only in what stands in the braces of function bodies and of
  enumerations, and in initializers. A `Front` says where braces hold such text.
* `Agrees`: if a step on the one text succeeds, so does the step on the other, with the same value.
  There is one lemma for each part of the grammar that does not meet itself.
-/

namespace TypeLedger

variable {α β γ : Type} {m n m' n' : Nat} {stop stop' : Location} {sc : Scope} {front : Front}
  {ts ts' : List Token}

/-! ## 1. Texts that differ in skipped text -/

/-- What stands in front of a token, as far as it says what braces would hold there. -/
inductive Front
  | plain
  /-- The keyword of an enumeration, behind which its name may come. -/
  | enumeration
  /-- The name of an enumeration, or the end of a suffix, behind which the body of a function may
  come. -/
  | skipped
deriving DecidableEq

/-- What stands in front of the next token. -/
def Front.behind : Front → TokenKind → Front
  | _, .mark .parenClose | _, .mark .bracketClose => .skipped
  | _, .keyword .enumeration => .enumeration
  | .enumeration, .ident _ => .skipped
  | _, _ => .plain

/-- The two texts have the same tokens, but for what stands in the braces of function bodies and of
enumerations, and in initializers. -/
inductive Refilled : Front → List Token → List Token → Prop
  | nil {front : Front} : Refilled front [] []
  | keep {front : Front} {t t' : Token} {r r' : List Token} (hk : t'.kind = t.kind)
    (h : Refilled (front.behind t.kind) r r') : Refilled front (t :: r) (t' :: r')
  | braces {front : Front} {o o' c c' : Token} {V V' r r' : List Token} (hf : front ≠ .plain)
    (ho : o.kind = .mark .braceOpen) (ho' : o'.kind = .mark .braceOpen)
    (hV : Bracketed true V) (hV' : Bracketed true V')
    (hc : c.kind = .mark .braceClose) (hc' : c'.kind = .mark .braceClose)
    (h : Refilled .plain r r') : Refilled front (o :: (V ++ c :: r)) (o' :: (V' ++ c' :: r'))
  | initializer {front : Front} {e e' t t' : Token} {W W' r r' : List Token}
    (he : e.kind = .mark .equals) (he' : e'.kind = .mark .equals)
    (hW : Bracketed false W) (hW' : Bracketed false W') (ht : t.kind.isSeparator = true)
    (h : Refilled .plain (t :: r) (t' :: r')) :
    Refilled front (e :: (W ++ t :: r)) (e' :: (W' ++ t' :: r'))

/-- The texts differ in skipped text, whatever stands in front of them. -/
def Resembles (ts ts' : List Token) : Prop := ∃ front, Refilled front ts ts'

theorem Refilled.resembles (h : Refilled front ts ts') : Resembles ts ts' := ⟨front, h⟩

namespace Refilled

/-- The first tokens are of one kind, and behind them the texts differ in skipped text again, unless
they open it. -/
theorem cases (h : Refilled front ts ts') : (ts = [] ∧ ts' = []) ∨
    ∃ k l l' r r', ts = ⟨k, l⟩ :: r ∧ ts' = ⟨k, l'⟩ :: r' ∧
      (k ≠ .mark .equals → (k = .mark .braceOpen → front = .plain) →
        Refilled (front.behind k) r r') := by
  cases h with
  | nil => exact .inl ⟨rfl, rfl⟩
  | @keep _ t t' r r' hk h =>
    obtain ⟨k, l⟩ := t
    obtain ⟨k', l'⟩ := t'
    cases hk
    exact .inr ⟨_, _, _, _, _, rfl, rfl, fun _ _ => h⟩
  | @braces _ o o' c c' V V' r r' hf ho ho' =>
    obtain ⟨k, l⟩ := o
    obtain ⟨k', l'⟩ := o'
    cases ho
    cases ho'
    exact .inr ⟨_, _, _, _, _, rfl, rfl, fun _ hplain => absurd (hplain rfl) hf⟩
  | @initializer _ e e' t t' W W' r r' he he' =>
    obtain ⟨k, l⟩ := e
    obtain ⟨k', l'⟩ := e'
    cases he
    cases he'
    exact .inr ⟨_, _, _, _, _, rfl, rfl, fun hne => absurd rfl hne⟩

protected theorem symm (h : Refilled front ts ts') : Refilled front ts' ts := by
  induction h with
  | nil => exact .nil
  | keep hk h ih => exact .keep hk.symm (hk ▸ ih)
  | braces hf ho ho' hV hV' hc hc' h ih => exact .braces hf ho' ho hV' hV hc' hc ih
  | @initializer front e e' t t' W W' r r' he he' hW hW' ht h ih =>
    refine .initializer he' he hW' hW ?_ ih
    rcases ih.cases with ⟨hnil, -⟩ | ⟨k, l, l', r₁, r₁', hts, hts', -⟩
    · cases hnil
    · cases hts
      cases hts'
      exact ht

/-- Texts of the same kinds differ in nothing that is read. -/
theorem of_kinds {front : Front} (h : ts'.map Token.kind = ts.map Token.kind) :
    Refilled front ts ts' := by
  induction ts generalizing ts' front with
  | nil =>
    rw [List.map_nil, List.map_eq_nil_iff] at h
    subst h
    exact .nil
  | cons t ts ih =>
    rw [List.map_cons, List.map_eq_cons_iff] at h
    obtain ⟨t', r', rfl, hk, h⟩ := h
    exact .keep hk (ih h)

end Refilled

/-- As `Refilled.cases`, where nothing is known of what stands in front. -/
theorem Resembles.cases (h : Resembles ts ts') : (ts = [] ∧ ts' = []) ∨
    ∃ k l l' r r', ts = ⟨k, l⟩ :: r ∧ ts' = ⟨k, l'⟩ :: r' ∧
      (k ≠ .mark .equals → k ≠ .mark .braceOpen → Resembles r r') := by
  obtain ⟨front, h⟩ := h
  rcases h.cases with hnil | ⟨k, l, l', r, r', hts, hts', hr⟩
  · exact .inl hnil
  · exact .inr ⟨k, l, l', r, r', hts, hts', fun he hb => ⟨_, hr he fun hb' => absurd hb' hb⟩⟩

/-! ## 2. Single tokens -/

theorem Resembles.startsWith_eq (h : Resembles ts ts') (m : Mark) :
    startsWith m ts' = startsWith m ts := by
  rcases h.cases with ⟨rfl, rfl⟩ | ⟨k, l, l', r, r', rfl, rfl, -⟩ <;> rfl

theorem Resembles.isEmpty_eq (h : Resembles ts ts') : ts'.isEmpty = ts.isEmpty := by
  rcases h.cases with ⟨rfl, rfl⟩ | ⟨k, l, l', r, r', rfl, rfl, -⟩ <;> rfl

/-- A mark that opens no skipped text is at the front of both texts or of neither. -/
theorem Refilled.take? (h : Refilled front ts ts') {m : Mark} (he : m ≠ .equals)
    (hb : m = .braceOpen → front = .plain) : (take? m ts = none ∧ take? m ts' = none) ∨
      ∃ r r' hlt hlt', take? m ts = some ⟨(), r, hlt⟩ ∧ take? m ts' = some ⟨(), r', hlt'⟩ ∧
        Refilled (front.behind (.mark m)) r r' := by
  rcases h.cases with ⟨rfl, rfl⟩ | ⟨k, l, l', r, r', rfl, rfl, hr⟩
  · exact .inl ⟨rfl, rfl⟩
  · by_cases hk : k = .mark m
    · subst hk
      refine .inr ⟨r, r', _, _, take?_of_kind rfl, take?_of_kind rfl, hr (by simpa using he) ?_⟩
      intro hm
      exact hb (by simpa using hm)
    · exact .inl ⟨take?_of_ne hk, take?_of_ne hk⟩

theorem Resembles.take? (h : Resembles ts ts') {m : Mark} (he : m ≠ .equals) (hb : m ≠ .braceOpen) :
    (take? m ts = none ∧ take? m ts' = none) ∨
      ∃ r r' hlt hlt', take? m ts = some ⟨(), r, hlt⟩ ∧ take? m ts' = some ⟨(), r', hlt'⟩ ∧
        Resembles r r' := by
  obtain ⟨front, h⟩ := h
  rcases h.take? he fun h => absurd h hb with hn | ⟨r, r', hlt, hlt', hs, hs', hr⟩
  · exact .inl hn
  · exact .inr ⟨r, r', hlt, hlt', hs, hs', hr.resembles⟩

theorem Refilled.takeIdent? (h : Refilled front ts ts') :
    (takeIdent? ts = none ∧ takeIdent? ts' = none) ∨
      ∃ name r r' hlt hlt', takeIdent? ts = some ⟨name, r, hlt⟩ ∧
        takeIdent? ts' = some ⟨name, r', hlt'⟩ ∧ Refilled (front.behind (.ident name)) r r' := by
  rcases h.cases with ⟨rfl, rfl⟩ | ⟨k, l, l', r, r', rfl, rfl, hr⟩
  · exact .inl ⟨rfl, rfl⟩
  · cases k with
    | ident name => exact .inr ⟨name, r, r', _, _, rfl, rfl, hr nofun nofun⟩
    | _ => exact .inl ⟨rfl, rfl⟩

/-- A name may be missing. If nothing in front opens skipped text, then nothing does behind it. -/
theorem Refilled.optionalName (h : Refilled front ts ts') :
    (optionalName ts').value = (optionalName ts).value ∧
      ∃ front', (front = .plain → front' = .plain) ∧
        Refilled front' (optionalName ts).rest (optionalName ts').rest := by
  unfold TypeLedger.optionalName
  rcases h.takeIdent? with ⟨hn, hn'⟩ | ⟨name, r, r', _, _, hs, hs', hr⟩
  · rw [hn, hn']
    exact ⟨rfl, front, id, h⟩
  · rw [hs, hs']
    refine ⟨rfl, _, ?_, hr⟩
    rintro rfl
    rfl

theorem Resembles.optionalName (h : Resembles ts ts') :
    (optionalName ts').value = (optionalName ts).value ∧
      Resembles (optionalName ts).rest (optionalName ts').rest := by
  obtain ⟨front, h⟩ := h
  obtain ⟨hv, front', -, hr⟩ := h.optionalName
  exact ⟨hv, front', hr⟩

theorem Resembles.qualifierRun (h : Resembles ts ts') :
    (qualifierRun ts').value = (qualifierRun ts).value ∧
      Resembles (qualifierRun ts).rest (qualifierRun ts').rest := by
  induction ts generalizing ts' with
  | nil =>
    rcases h.cases with ⟨-, rfl⟩ | ⟨k, l, l', r, r', hts, -⟩
    · exact ⟨rfl, h⟩
    · cases hts
  | cons t r ih =>
    rcases h.cases with ⟨hnil, -⟩ | ⟨k, l, l', r, r', hts, rfl, hr⟩
    · cases hnil
    cases hts
    by_cases hq : ∃ q, k = .keyword (.qualifier q)
    · obtain ⟨q, rfl⟩ := hq
      obtain ⟨hv, hrest⟩ := ih (hr nofun nofun)
      rw [(qualifierRun_cons _ rfl).1, (qualifierRun_cons _ rfl).1, (qualifierRun_cons _ rfl).2,
        (qualifierRun_cons _ rfl).2, hv]
      exact ⟨rfl, hrest⟩
    · have hk : isQualifierKind k = false := by
        cases k with
        | keyword w =>
          cases w with
          | qualifier q => exact absurd ⟨q, rfl⟩ hq
          | _ => rfl
        | _ => rfl
      have hheads (l : Location) (r : List Token) :
          Heads (fun k => isQualifierKind k = false) (⟨k, l⟩ :: r) := heads_cons.2 hk
      obtain ⟨hv, hrest⟩ := qualifierRun_of_heads (hheads l r)
      obtain ⟨hv', hrest'⟩ := qualifierRun_of_heads (hheads l' r')
      rw [hv, hrest, hv', hrest']
      exact ⟨rfl, h⟩

theorem Resembles.takePointer? (h : Resembles ts ts') :
    (takePointer? ts = none ∧ takePointer? ts' = none) ∨
      ∃ kind r r' hlt hlt', takePointer? ts = some ⟨kind, r, hlt⟩ ∧
        takePointer? ts' = some ⟨kind, r', hlt'⟩ ∧ Resembles r r' := by
  rcases h.cases with ⟨rfl, rfl⟩ | ⟨k, l, l', r, r', rfl, rfl, hr⟩
  · exact .inl ⟨rfl, rfl⟩
  by_cases hm : ∃ m kind, k = .mark m ∧ m.pointerKind? = some kind
  · obtain ⟨m, kind, rfl, hm⟩ := hm
    refine .inr ⟨kind, r, r', _, _, takePointer?_of_kind rfl hm, takePointer?_of_kind rfl hm, ?_⟩
    exact hr (by rintro ⟨⟩; cases hm) (by rintro ⟨⟩; cases hm)
  · have hk : isPointerKind k = false := by
      cases k with
      | mark m =>
        refine Bool.eq_false_iff.2 fun hsome => ?_
        obtain ⟨kind, hkind⟩ := Option.isSome_iff_exists.1 hsome
        exact hm ⟨m, kind, rfl, hkind⟩
      | _ => rfl
    exact .inl ⟨takePointer?_eq_none (heads_cons.2 hk), takePointer?_eq_none (heads_cons.2 hk)⟩

theorem Resembles.pointerRun {ts ts' : List Token} (h : Resembles ts ts') :
    (pointerRun ts').value = (pointerRun ts).value ∧
      Resembles (pointerRun ts).rest (pointerRun ts').rest := by
  rcases h.takePointer? with ⟨hn, hn'⟩ | ⟨kind, r, r', hlt, _, hs, hs', hr⟩
  · rw [(pointerRun_of_none hn).1, (pointerRun_of_none hn).2, (pointerRun_of_none hn').1,
      (pointerRun_of_none hn').2]
    exact ⟨rfl, h⟩
  · have hq := (TypeLedger.qualifierRun r).short
    obtain ⟨hqv, hqr⟩ := hr.qualifierRun
    obtain ⟨hv, hrest⟩ := hqr.pointerRun
    rw [(pointerRun_of_some hs).1, (pointerRun_of_some hs).2, (pointerRun_of_some hs').1,
      (pointerRun_of_some hs').2, hqv, hv]
    exact ⟨rfl, hrest⟩
termination_by ts.length

theorem Resembles.symm (h : Resembles ts ts') : Resembles ts' ts :=
  h.imp fun _ h => h.symm

/-- The first token of both texts, where it is known for one. -/
theorem Resembles.cases_cons {k : TokenKind} {l : Location} {r : List Token}
    (h : Resembles (⟨k, l⟩ :: r) ts') (he : k ≠ .mark .equals) (hb : k ≠ .mark .braceOpen) :
    ∃ l' r', ts' = ⟨k, l'⟩ :: r' ∧ Resembles r r' := by
  rcases h.cases with ⟨hnil, -⟩ | ⟨k', l₁, l', r₁, r', hts, rfl, hr⟩
  · cases hnil
  · cases hts
    exact ⟨l', r', rfl, hr he hb⟩

/-- What one of two texts has, and then the other, if neither does then both do. -/
theorem both_or_neither {rel : List Token → List Token → Prop} {x : Option (Takes ts α)}
    {x' : Option (Takes ts' α)}
    (h : ∀ v r hlt, x = some ⟨v, r, hlt⟩ → ∃ r' hlt', x' = some ⟨v, r', hlt'⟩ ∧ rel r r')
    (h' : ∀ v r' hlt', x' = some ⟨v, r', hlt'⟩ → x ≠ none) : (x = none ∧ x' = none) ∨
      ∃ v r r' hlt hlt', x = some ⟨v, r, hlt⟩ ∧ x' = some ⟨v, r', hlt'⟩ ∧ rel r r' := by
  cases x with
  | none =>
    cases x' with
    | none => exact .inl ⟨rfl, rfl⟩
    | some s' => exact absurd rfl (h' s'.value s'.rest s'.short rfl)
  | some s =>
    obtain ⟨r', hlt', hx', hr⟩ := h s.value s.rest s.short rfl
    exact .inr ⟨s.value, s.rest, r', s.short, hlt', rfl, hx', hr⟩

theorem Resembles.closedSize?_some (h : Resembles ts ts') {size : ArraySize} {r : List Token}
    {hlt : r.length < ts.length} (hs : closedSize? ts = some ⟨size, r, hlt⟩) :
    ∃ r' hlt', closedSize? ts' = some ⟨size, r', hlt'⟩ ∧ Resembles r r' := by
  unfold TypeLedger.closedSize? at hs
  split at hs
  · cases hs
    obtain ⟨l₁, r₁, rfl, h₁⟩ := h.cases_cons nofun nofun
    obtain ⟨l₂, r₂, rfl, h₂⟩ := h₁.cases_cons nofun nofun
    exact ⟨r₂, _, rfl, h₂⟩
  · cases hs
    obtain ⟨l₁, r₁, rfl, h₁⟩ := h.cases_cons nofun nofun
    obtain ⟨l₂, r₂, rfl, h₂⟩ := h₁.cases_cons nofun nofun
    exact ⟨r₂, _, rfl, h₂⟩
  · cases hs

theorem Resembles.closedSize? (h : Resembles ts ts') :
    (closedSize? ts = none ∧ closedSize? ts' = none) ∨
      ∃ size r r' hlt hlt', closedSize? ts = some ⟨size, r, hlt⟩ ∧
        closedSize? ts' = some ⟨size, r', hlt'⟩ ∧ Resembles r r' :=
  both_or_neither (fun _ _ _ hs => h.closedSize?_some hs) fun _ _ _ hs hn => by
    obtain ⟨_, _, hs, -⟩ := h.symm.closedSize?_some hs
    rw [hn] at hs
    cases hs

theorem Resembles.takeNoParameters?_some (h : Resembles ts ts') {v : Unit} {r : List Token}
    {hlt : r.length < ts.length} (hs : takeNoParameters? ts = some ⟨v, r, hlt⟩) :
    ∃ r' hlt', takeNoParameters? ts' = some ⟨v, r', hlt'⟩ ∧ Resembles r r' := by
  unfold TypeLedger.takeNoParameters? at hs
  split at hs
  · cases hs
    obtain ⟨l₁, r₁, rfl, h₁⟩ := h.cases_cons nofun nofun
    exact ⟨r₁, _, rfl, h₁⟩
  · cases hs
    obtain ⟨l₁, r₁, rfl, h₁⟩ := h.cases_cons nofun nofun
    obtain ⟨l₂, r₂, rfl, h₂⟩ := h₁.cases_cons nofun nofun
    exact ⟨r₂, _, rfl, h₂⟩
  · cases hs

theorem Resembles.takeNoParameters? (h : Resembles ts ts') :
    (takeNoParameters? ts = none ∧ takeNoParameters? ts' = none) ∨
      ∃ v r r' hlt hlt', takeNoParameters? ts = some ⟨v, r, hlt⟩ ∧
        takeNoParameters? ts' = some ⟨v, r', hlt'⟩ ∧ Resembles r r' :=
  both_or_neither (fun _ _ _ hs => h.takeNoParameters?_some hs) fun _ _ _ hs hn => by
    obtain ⟨_, _, hs, -⟩ := h.symm.takeNoParameters?_some hs
    rw [hn] at hs
    cases hs

/-- Whether a parenthesis opens a declarator is seen at the token behind it. -/
theorem Resembles.takeNested? (h : Resembles ts ts') (sc : Scope) :
    (takeNested? sc ts = none ∧ takeNested? sc ts' = none) ∨
      ∃ r r' hlt hlt', takeNested? sc ts = some ⟨(), r, hlt⟩ ∧
        takeNested? sc ts' = some ⟨(), r', hlt'⟩ ∧ Resembles r r' := by
  unfold TypeLedger.takeNested?
  rcases h.take? (m := .parenOpen) nofun nofun with ⟨hn, hn'⟩ | ⟨r, r', hlt, hlt', hs, hs', hr⟩
  · rw [hn, hn']
    exact .inl ⟨rfl, rfl⟩
  · have hhead : r'.head?.any (fun t => beginsDeclarator sc t.kind) =
        r.head?.any fun t => beginsDeclarator sc t.kind := by
      rcases hr.cases with ⟨rfl, rfl⟩ | ⟨k, l, l', r₁, r₁', rfl, rfl, -⟩ <;> rfl
    rw [hs, hs']
    dsimp only
    rw [hhead]
    split
    · exact .inr ⟨r, r', hlt, hlt', rfl, rfl, hr⟩
    · exact .inl ⟨rfl, rfl⟩

theorem Resembles.dropWhile_isArrayWord (h : Resembles ts ts') :
    Resembles (ts.dropWhile fun t => isArrayWord t.kind)
      (ts'.dropWhile fun t => isArrayWord t.kind) := by
  induction ts generalizing ts' with
  | nil =>
    rcases h.cases with ⟨-, rfl⟩ | ⟨k, l, l', r, r', hts, -⟩
    · exact h
    · cases hts
  | cons t r ih =>
    obtain ⟨k, l⟩ := t
    by_cases hk : isArrayWord k = true
    · obtain ⟨l', r', rfl, hr⟩ := h.cases_cons (by rintro rfl; cases hk) (by rintro rfl; cases hk)
      rw [List.dropWhile_cons_of_pos (by exact hk), List.dropWhile_cons_of_pos (by exact hk)]
      exact ih hr
    · rcases h.cases with ⟨hnil, -⟩ | ⟨k', l₁, l', r₁, r', hts, rfl, -⟩
      · cases hnil
      cases hts
      rw [List.dropWhile_cons_of_neg (by exact hk), List.dropWhile_cons_of_neg (by exact hk)]
      exact h

theorem Refilled.baseWords (h : Refilled .plain ts ts') :
    (baseWords ts').value = (baseWords ts).value ∧
      Refilled .plain (baseWords ts).rest (baseWords ts').rest := by
  induction ts generalizing ts' with
  | nil =>
    rcases h.cases with ⟨-, rfl⟩ | ⟨k, l, l', r, r', hts, -⟩
    · exact ⟨rfl, h⟩
    · cases hts
  | cons t r ih =>
    rcases h.cases with ⟨hnil, -⟩ | ⟨k, l, l', r, r', hts, rfl, hr⟩
    · cases hnil
    cases hts
    by_cases ha : ∃ a, k = .keyword (.access a)
    · obtain ⟨a, rfl⟩ := ha
      obtain ⟨hv, hrest⟩ := ih (hr nofun nofun)
      obtain ⟨hw, hwr⟩ := baseWords_access (t := ⟨.keyword (.access a), l⟩) rfl r
      obtain ⟨hw', hwr'⟩ := baseWords_access (t := ⟨.keyword (.access a), l'⟩) rfl r'
      rw [hw, hwr, hw', hwr', hv]
      exact ⟨rfl, hrest⟩
    by_cases hvirtual : k = .keyword .virtualBase
    · subst hvirtual
      obtain ⟨hv, hrest⟩ := ih (hr nofun nofun)
      obtain ⟨hw, hwr⟩ := baseWords_virtual (t := ⟨.keyword .virtualBase, l⟩) rfl r
      obtain ⟨hw', hwr'⟩ := baseWords_virtual (t := ⟨.keyword .virtualBase, l'⟩) rfl r'
      rw [hw, hwr, hw', hwr', hv]
      exact ⟨rfl, hrest⟩
    · have ha := not_exists.1 ha
      obtain ⟨hw, hwr⟩ := baseWords_other (t := ⟨k, l⟩) ha hvirtual r
      obtain ⟨hw', hwr'⟩ := baseWords_other (t := ⟨k, l'⟩) ha hvirtual r'
      rw [hw, hwr, hw', hwr']
      exact ⟨rfl, h⟩

/-! ## 3. Skipped text -/

/-- What differs is passed over in both texts. -/
theorem Refilled.skipUntil? {ends : TokenKind → Bool} (hends : EndsOutside ends false)
    (h : Refilled front ts ts') {depth : Nat} {r : List Token}
    (hr : skipUntil? ends depth ts = some r) :
    ∃ r', skipUntil? ends depth ts' = some r' ∧ Resembles r r' := by
  induction h generalizing depth with
  | nil => cases hr
  | @keep front t t' s s' hk h ih =>
    rw [TypeLedger.skipUntil?] at hr ⊢
    rw [hk]
    split at hr
    · rename_i hstop
      cases hr
      rw [if_pos hstop]
      exact ⟨_, rfl, front, .keep hk h⟩
    · rename_i hstop
      rw [if_neg hstop]
      exact ih hr
  | @braces front o o' c c' V V' s s' hf ho ho' hV hV' hc hc' h ih =>
    rw [Bracketed.skipUntil?_braces hends ho hV hc] at hr
    rw [Bracketed.skipUntil?_braces hends ho' hV' hc']
    exact ih hr
  | @initializer front e e' t t' W W' s s' he he' hW hW' ht h ih =>
    rw [← List.cons_append, (hW.equals he).skipUntil?_append (.inl hends)] at hr
    rw [← List.cons_append, (hW'.equals he').skipUntil?_append (.inl hends)]
    exact ih hr

/-! ## 4. Steps -/

/-- If the first step succeeds, so does the second one: its value is as that of the first, and the
texts that they leave are related. -/
def AgreesUpTo (same : α → α → Prop) (rel : List Token → List Token → Prop)
    (e : Except SourceError (Step m α)) (e' : Except SourceError (Step n α)) : Prop :=
  ∀ s, e = .ok s → ∃ v' r', Gives e' v' r' ∧ same s.value v' ∧ rel s.rest r'

/-- If the first step succeeds, so does the second one, with the same value. -/
abbrev Agrees (rel : List Token → List Token → Prop) (e : Except SourceError (Step m α))
    (e' : Except SourceError (Step n α)) : Prop :=
  AgreesUpTo Eq rel e e'

section Steps

variable {rel inner : List Token → List Token → Prop} {same : α → α → Prop}
  {same' : β → β → Prop}

theorem agrees_ok {s : Step m α} {s' : Step n α} (hv : same s.value s'.value)
    (hr : rel s.rest s'.rest) : AgreesUpTo same rel (.ok s) (.ok s') := by
  intro s₁ hs
  cases hs
  exact ⟨_, _, gives_ok, hv, hr⟩

theorem agrees_error {x : SourceError} {e' : Except SourceError (Step n α)} :
    AgreesUpTo same rel (.error x : Except SourceError (Step m α)) e' := by
  intro s hs
  cases hs

theorem AgreesUpTo.mono {e : Except SourceError (Step m α)} {e' : Except SourceError (Step n α)}
    (h : AgreesUpTo same inner e e') (hrel : ∀ r r', inner r r' → rel r r') :
    AgreesUpTo same rel e e' := by
  intro s hs
  obtain ⟨v', r', hg, hv, hr⟩ := h s hs
  exact ⟨v', r', hg, hv, hrel _ _ hr⟩

/-- A step, and what follows it. -/
theorem agrees_bind_upTo {e : Except SourceError (Step m α)} {e' : Except SourceError (Step n α)}
    {f : Step m α → Except SourceError (Step m' β)}
    {f' : Step n α → Except SourceError (Step n' β)} (he : AgreesUpTo same inner e e')
    (hf : ∀ v r hlt v' r' hlt', same v v' → inner r r' →
      AgreesUpTo same' rel (f ⟨v, r, hlt⟩) (f' ⟨v', r', hlt'⟩)) :
    AgreesUpTo same' rel (e >>= f) (e' >>= f') := by
  intro s hs
  cases e with
  | error x => cases hs
  | ok s₁ =>
    obtain ⟨v', r', ⟨s₁', he', rfl, rfl⟩, hv, hr⟩ := he s₁ rfl
    subst he'
    exact hf _ s₁.rest s₁.short _ s₁'.rest s₁'.short hv hr s hs

/-- A step with the same value, and what follows it. -/
theorem agrees_bind {e : Except SourceError (Step m α)} {e' : Except SourceError (Step n α)}
    {f : Step m α → Except SourceError (Step m' β)}
    {f' : Step n α → Except SourceError (Step n' β)} (he : Agrees inner e e')
    (hf : ∀ v r hlt r' hlt', inner r r' →
      AgreesUpTo same' rel (f ⟨v, r, hlt⟩) (f' ⟨v, r', hlt'⟩)) :
    AgreesUpTo same' rel (e >>= f) (e' >>= f') :=
  agrees_bind_upTo he fun v r hlt _ r' hlt' hv hr => by
    subst hv
    exact hf v r hlt r' hlt' hr

/-- Behind a check that takes no token. -/
theorem agrees_check {e e' : Except SourceError γ} {f : γ → Except SourceError (Step m' β)}
    {f' : γ → Except SourceError (Step n' β)} (he : ∀ c, e = .ok c → e' = .ok c)
    (hf : ∀ c, AgreesUpTo same' rel (f c) (f' c)) :
    AgreesUpTo same' rel (e >>= f) (e' >>= f') := by
  intro s hs
  cases e with
  | error x => cases hs
  | ok c =>
    rw [he c rfl]
    exact hf c s hs

end Steps

/-- A mark that opens no skipped text. -/
theorem Refilled.agrees_expect (h : Refilled front ts ts') {m : Mark} (he : m ≠ .equals)
    (hb : m = .braceOpen → front = .plain) :
    Agrees (Refilled (front.behind (.mark m))) (expect stop m ts) (expect stop' m ts') := by
  unfold expect
  rcases h.take? he hb with ⟨hn, -⟩ | ⟨r, r', _, _, hs, hs', hr⟩
  · rw [hn]
    exact agrees_error
  · rw [hs, hs']
    exact agrees_ok rfl hr

theorem agrees_expect (h : Resembles ts ts') {m : Mark} (he : m ≠ .equals) (hb : m ≠ .braceOpen) :
    Agrees Resembles (expect stop m ts) (expect stop' m ts') := by
  obtain ⟨front, h⟩ := h
  exact (h.agrees_expect he fun h => absurd h hb).mono fun _ _ => Refilled.resembles

theorem agrees_skipTo (h : Resembles ts ts') {ends : TokenKind → Bool}
    (hends : EndsOutside ends false) :
    Agrees Resembles (skipTo stop ends ts) (skipTo stop' ends ts') := by
  rintro ⟨v, r, hlt⟩ hs
  obtain ⟨front, h⟩ := h
  obtain ⟨r', hr', hr⟩ := h.skipUntil? hends (skipUntil?_of_skipTo hs)
  exact ⟨(), r', gives_skipTo_of_skipUntil? hr', rfl, hr⟩

/-- A body is passed over in both texts, whatever is in it. -/
theorem agrees_skipBody (h : Resembles ts ts') :
    Agrees Resembles (skipBody stop ts) (skipBody stop' ts') := by
  obtain ⟨front, h⟩ := h
  cases h with
  | nil => exact agrees_error
  | @keep _ t t' r r' hk h =>
    have hopen : Agrees Resembles (expect stop .braceOpen (t :: r))
        (expect stop' .braceOpen (t' :: r')) := by
      unfold expect
      by_cases ht : t.kind = .mark .braceOpen
      · rw [take?_of_kind ht, take?_of_kind (hk.trans ht)]
        exact agrees_ok rfl h.resembles
      · rw [take?_of_ne ht]
        exact agrees_error
    unfold skipBody
    refine agrees_bind hopen fun _ r₁ _ r₁' _ hr₁ => ?_
    refine agrees_bind (agrees_skipTo hr₁ (endsOutside_isMark rfl false)) fun _ r₂ _ r₂' _ hr₂ => ?_
    exact agrees_bind (agrees_expect hr₂ nofun nofun) fun _ _ _ _ _ hr₃ => agrees_ok rfl hr₃
  | @braces _ o o' c c' V V' r r' hf ho ho' hV hV' hc hc' h =>
    intro s hs
    obtain ⟨hv, hr⟩ := Gives.unique ⟨s, hs, rfl, rfl⟩ (gives_skipBody ho hV hc r)
    rw [hv, hr]
    exact ⟨(), r', gives_skipBody ho' hV' hc' r', rfl, h.resembles⟩
  | @initializer _ e e' t t' W W' r r' he =>
    unfold skipBody expect
    rw [take?_of_ne (by rw [he]; nofun)]
    exact agrees_error

/-- An initializer is passed over in both texts, whatever is in it. -/
theorem agrees_skipInitializer (h : Resembles ts ts') :
    Agrees Resembles (skipInitializer stop ts) (skipInitializer stop' ts') := by
  have hnone (hs : TypeLedger.take? .equals ts = none) (hs' : TypeLedger.take? .equals ts' = none) :
      Agrees Resembles (skipInitializer stop ts) (skipInitializer stop' ts') := by
    unfold skipInitializer
    rw [hs, hs']
    exact agrees_ok rfl h
  obtain ⟨front, h'⟩ := h
  cases h' with
  | nil => exact hnone rfl rfl
  | @keep _ t t' r r' hk h' =>
    by_cases ht : t.kind = .mark .equals
    · unfold skipInitializer
      rw [take?_of_kind ht, take?_of_kind (hk.trans ht)]
      exact agrees_bind (agrees_skipTo h'.resembles endsOutside_isSeparator) fun _ _ _ _ _ hr =>
        agrees_ok rfl hr
    · exact hnone (take?_of_ne ht) (take?_of_ne (hk ▸ ht))
  | braces _ ho ho' =>
    exact hnone (take?_of_ne (by rw [ho]; nofun)) (take?_of_ne (by rw [ho']; nofun))
  | @initializer _ e e' t t' W W' r r' he he' hW hW' ht h' =>
    have ht' : t'.kind.isSeparator = true := by
      rcases h'.cases with ⟨hnil, -⟩ | ⟨k, l, l', r₁, r₁', hts, hts', -⟩
      · cases hnil
      · cases hts
        cases hts'
        exact ht
    intro s hs
    obtain ⟨hv, hr⟩ := Gives.unique ⟨s, hs, rfl, rfl⟩ (gives_skipInitializer he hW ht r)
    rw [hv, hr]
    exact ⟨(), t' :: r', gives_skipInitializer he' hW' ht' r', rfl, h'.resembles⟩

/-! ## 5. Parts that do not meet themselves -/

theorem agrees_bitWidth (h : Resembles ts ts') :
    Agrees Resembles (bitWidth stop ts) (bitWidth stop' ts') := by
  rcases h.cases with ⟨rfl, rfl⟩ | ⟨k, l, l', r, r', rfl, rfl, hr⟩
  · exact agrees_error
  · unfold bitWidth
    dsimp only
    split
    · split
      · exact agrees_ok rfl (hr nofun nofun)
      · exact agrees_error
    · exact agrees_error

theorem agrees_optionalWidth (h : Resembles ts ts') :
    Agrees Resembles (optionalWidth stop ts) (optionalWidth stop' ts') := by
  unfold optionalWidth
  rcases h.take? (m := .colon) nofun nofun with ⟨hn, hn'⟩ | ⟨r, r', _, _, hs, hs', hr⟩
  · rw [hn, hn']
    exact agrees_ok rfl h
  · rw [hs, hs']
    exact agrees_bind (agrees_bitWidth hr) fun _ _ _ _ _ hr₂ => agrees_ok rfl hr₂

theorem agrees_labelColon (h : Resembles ts ts') (key : RecordKey) (l l' : Location) :
    Agrees Resembles (labelColon stop key l ts) (labelColon stop' key l' ts') := by
  unfold labelColon
  split
  · exact agrees_expect h nofun nofun
  · exact agrees_error

theorem agrees_sizeBefore (h : Resembles ts ts') :
    Agrees Resembles (sizeBefore stop ts) (sizeBefore stop' ts') := by
  unfold sizeBefore
  rcases h.closedSize? with ⟨hn, hn'⟩ | ⟨size, r, r', _, _, hs, hs', hr⟩
  · rw [hn, hn']
    refine agrees_bind (agrees_skipTo h (endsOutside_isMark rfl false)) fun _ r₁ _ r₁' _ hr₁ => ?_
    exact agrees_bind (agrees_expect hr₁ nofun nofun) fun _ _ _ _ _ hr₂ => agrees_ok rfl hr₂
  · rw [hs, hs']
    exact agrees_ok rfl hr

theorem agrees_arraySuffix (h : Resembles ts ts') :
    Agrees Resembles (arraySuffix stop ts) (arraySuffix stop' ts') := by
  unfold arraySuffix
  exact agrees_bind (agrees_sizeBefore h.dropWhile_isArrayWord)
    fun _ _ _ _ _ hr => agrees_ok rfl hr

theorem Refilled.agrees_expectIdent (h : Refilled .plain ts ts') :
    Agrees (Refilled .plain) (expectIdent stop ts) (expectIdent stop' ts') := by
  unfold expectIdent
  rcases h.takeIdent? with ⟨hn, -⟩ | ⟨name, r, r', _, _, hs, hs', hr⟩
  · rw [hn]
    exact agrees_error
  · rw [hs, hs']
    exact agrees_ok rfl hr

theorem Refilled.agrees_baseClause {ts ts' : List Token} (h : Refilled .plain ts ts') :
    Agrees (Refilled .plain) (baseClause stop sc ts) (baseClause stop' sc ts') := by
  have h₁ := (TypeLedger.baseWords ts).short
  obtain ⟨hv, hr₁⟩ := h.baseWords
  unfold baseClause
  refine agrees_bind hr₁.agrees_expectIdent fun name r₂ h₂ r₂' _ hr₂ => ?_
  simp only [hv]
  cases sc.recordType? name with
  | none => exact agrees_error
  | some type =>
    dsimp only
    rcases hr₂.take? (m := .comma) (by decide) (by decide) with
      ⟨hn, hn'⟩ | ⟨r₃, r₃', h₃, _, hs, hs', hr₃⟩
    · rw [hn, hn']
      exact agrees_ok rfl hr₂
    · rw [hs, hs']
      exact agrees_bind (Refilled.agrees_baseClause hr₃) fun _ _ _ _ _ hr₄ => agrees_ok rfl hr₄
termination_by ts.length

theorem Refilled.agrees_optionalBases (h : Refilled .plain ts ts') (key : RecordKey) :
    Agrees (Refilled .plain) (optionalBases stop key sc ts) (optionalBases stop' key sc ts') := by
  unfold optionalBases
  rcases h.take? (m := .colon) nofun nofun with ⟨hn, hn'⟩ | ⟨r, r', _, _, hs, hs', hr⟩
  · rw [hn, hn']
    exact agrees_ok rfl h
  · rw [hs, hs']
    dsimp only
    split
    · exact agrees_bind (Refilled.agrees_baseClause hr) fun _ _ _ _ _ hr₂ => agrees_ok rfl hr₂
    · exact agrees_error

/-- The values of an enumeration are passed over in both texts. -/
theorem agrees_enumSpecifier (h : Resembles ts ts') :
    Agrees Resembles (enumSpecifier stop sc ts) (enumSpecifier stop' sc ts') := by
  obtain ⟨hv, hr⟩ := h.optionalName
  unfold enumSpecifier
  dsimp only
  rw [hv, hr.startsWith_eq]
  split
  · exact agrees_bind (agrees_skipBody hr) fun _ _ _ _ _ hr₂ => agrees_ok rfl hr₂
  · exact agrees_ok rfl hr

end TypeLedger
