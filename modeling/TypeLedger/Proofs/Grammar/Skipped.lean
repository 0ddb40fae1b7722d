import TypeLedger.Proofs.Grammar.Gives

/-!
# Skipped text

* `Bracketed`: a text in which every bracket has its partner. Its flag says whether commas and
  semicolons may stand outside of the brackets.
* `Bracketed.skipUntil?_append`: such a text is passed over as a whole, whatever stands behind it,
  by a search that ends at nothing that it holds outside of its brackets (`EndsOutside`).
* `gives_skipBody`, `gives_skipInitializer`: a body ends with its own brace, and an initializer in
  front of its comma or semicolon.
-/

namespace TypeLedger

variable {stop : Location} {separated : Bool} {W R : List Token}

/-! ## 1. Brackets -/

/-- The mark that closes what a mark opens. -/
def Mark.partner? : Mark → Option Mark
  | .parenOpen => some .parenClose
  | .bracketOpen => some .bracketClose
  | .braceOpen => some .braceClose
  | _ => none

/-- The token opens or closes a group. -/
def TokenKind.isBracket : TokenKind → Bool
  | .mark m => m.opens || m.closes
  | _ => false

/-- A text in which every bracket has its partner. Separators may stand inside of brackets, and
outside of them if the flag is set. -/
inductive Bracketed : Bool → List Token → Prop
  | nil {separated : Bool} : Bracketed separated []
  | token {separated : Bool} {t : Token} {W : List Token} (ht : t.kind.isBracket = false)
    (hs : separated = true ∨ t.kind.isSeparator = false) (hW : Bracketed separated W) :
    Bracketed separated (t :: W)
  | group {separated : Bool} {o c : Token} {m m' : Mark} {V W : List Token}
    (ho : o.kind = .mark m) (hm : m.partner? = some m') (hc : c.kind = .mark m')
    (hV : Bracketed true V) (hW : Bracketed separated W) :
    Bracketed separated (o :: (V ++ c :: W))

namespace Mark

theorem opens_of_partner {m m' : Mark} (h : m.partner? = some m') :
    m.opens = true ∧ m.closes = false ∧ m'.opens = false ∧ m'.closes = true := by
  cases m <;> cases h <;> decide

end Mark

theorem depthBehind_token {t : Token} (ht : t.kind.isBracket = false) (depth : Nat) :
    depthBehind depth t.kind = depth := by
  obtain ⟨k, l⟩ := t
  cases k with
  | mark m =>
    simp only [TokenKind.isBracket, Bool.or_eq_false_iff] at ht
    simp [depthBehind, ht.1, ht.2]
  | _ => rfl

theorem depthBehind_open {m m' : Mark} (h : m.partner? = some m') (depth : Nat) :
    depthBehind depth (.mark m) = depth + 1 := by
  simp [depthBehind, (Mark.opens_of_partner h).1]

theorem depthBehind_close {m m' : Mark} (h : m.partner? = some m') (depth : Nat) :
    depthBehind (depth + 1) (.mark m') = depth := by
  obtain ⟨-, -, ho, hc⟩ := Mark.opens_of_partner h
  simp [depthBehind, ho, hc]

/-! ## 2. Passing over it -/

/-- A search ends at no token that a text may hold outside of its brackets, and at no token that
opens one. -/
def EndsOutside (ends : TokenKind → Bool) (separated : Bool) : Prop :=
  ∀ k, ends k = true → (∀ m m', m.partner? = some m' → k ≠ .mark m) ∧
    (k.isBracket = true ∨ separated = false ∧ k.isSeparator = true)

theorem endsOutside_isMark {close : Mark} (hclose : close.closes = true) (separated : Bool) :
    EndsOutside (TokenKind.isMark close) separated := by
  intro k hk
  obtain rfl := TokenKind.isMark_iff.1 hk
  refine ⟨fun m m' hm h => ?_, .inl ?_⟩
  · cases h
    rw [(Mark.opens_of_partner hm).2.1] at hclose
    cases hclose
  · rw [TokenKind.isBracket, hclose, Bool.or_true]

theorem endsOutside_isSeparator : EndsOutside TokenKind.isSeparator false := by
  refine fun k hk => ⟨fun m m' hm h => ?_, .inr ⟨rfl, hk⟩⟩
  rcases TokenKind.isSeparator_iff.1 hk with hk | hk <;> rw [hk] at h <;> cases h <;> cases hm

namespace Bracketed

variable {ends : TokenKind → Bool} {depth : Nat}

/-- Nothing in the text is taken for the end. Inside of a bracket the search does not look. -/
theorem skipUntil?_append (h : Bracketed separated W)
    (hends : EndsOutside ends separated ∨ depth ≠ 0) (R : List Token) :
    skipUntil? ends depth (W ++ R) = skipUntil? ends depth R := by
  induction h generalizing depth R with
  | nil => rfl
  | @token separated t W ht hs hW ih =>
    have hne : ¬(depth = 0 ∧ ends t.kind = true) := by
      rintro ⟨hd, hk⟩
      obtain hbracket | ⟨rfl, hsep⟩ := ((hends.resolve_right (absurd hd)) _ hk).2
      · rw [ht] at hbracket
        cases hbracket
      · rw [hs.resolve_left Bool.false_ne_true] at hsep
        cases hsep
    rw [List.cons_append, skipUntil?, if_neg hne, depthBehind_token ht, ih hends]
  | @group _ o c m m' V W ho hm hc hV hW ihV ihW =>
    have hne : ¬(depth = 0 ∧ ends o.kind = true) := fun h =>
      ((hends.resolve_right (absurd h.1)) _ h.2).1 m m' hm ho
    rw [List.cons_append, List.append_assoc, skipUntil?, if_neg hne, ho, depthBehind_open hm,
      ihV (.inr (Nat.succ_ne_zero _)), List.cons_append, skipUntil?,
      if_neg fun h => Nat.succ_ne_zero _ h.1, hc, depthBehind_close hm, ihW hends]

/-- Braces around a text make one group. -/
theorem braces (separated : Bool) {o c : Token} {V : List Token} (ho : o.kind = .mark .braceOpen)
    (hV : Bracketed true V) (hc : c.kind = .mark .braceClose) :
    Bracketed separated (o :: (V ++ [c])) :=
  .group ho rfl hc hV .nil

theorem skipUntil?_braces (hends : EndsOutside ends false) {o c : Token} {V : List Token}
    (ho : o.kind = .mark .braceOpen) (hV : Bracketed true V) (hc : c.kind = .mark .braceClose)
    (R : List Token) : skipUntil? ends depth (o :: (V ++ c :: R)) = skipUntil? ends depth R := by
  simpa using (braces false ho hV hc).skipUntil?_append (.inl hends) R

/-- The sign of an initializer belongs to the text behind it. -/
theorem equals {e : Token} (he : e.kind = .mark .equals) (hW : Bracketed separated W) :
    Bracketed separated (e :: W) :=
  .token (by rw [he]; rfl) (.inr (by rw [he]; rfl)) hW

end Bracketed

/-! ## 3. Bodies and initializers -/

/-- **A body ends with the brace that is its own,** if the brackets in front of it have their
partners (`Bracketed`). -/
theorem gives_skipBody {o c : Token} (ho : o.kind = .mark .braceOpen) (hW : Bracketed true W)
    (hc : c.kind = .mark .braceClose) (R : List Token) :
    Gives (skipBody stop (o :: (W ++ c :: R))) () R := by
  have hend : skipUntil? (TokenKind.isMark .braceClose) 0 (W ++ c :: R) = some (c :: R) := by
    rw [hW.skipUntil?_append (.inl (endsOutside_isMark rfl true)), skipUntil?,
      if_pos ⟨rfl, TokenKind.isMark_iff.2 hc⟩]
  unfold skipBody
  refine gives_bind (gives_expect ho) fun _ => ?_
  refine gives_bind (gives_skipTo_of_skipUntil? hend) fun _ => ?_
  exact gives_bind (gives_expect hc) fun _ => ⟨_, rfl, rfl, rfl⟩

/-- **An initializer ends in front of the comma or semicolon that is outside of its brackets**
(`Bracketed`). -/
theorem gives_skipInitializer {e t : Token} (he : e.kind = .mark .equals)
    (hW : Bracketed false W) (ht : t.kind.isSeparator = true) (R : List Token) :
    Gives (skipInitializer stop (e :: (W ++ t :: R))) () (t :: R) := by
  refine gives_skipInitializer_of_skipUntil? he ?_
  rw [hW.skipUntil?_append (.inl endsOutside_isSeparator), skipUntil?, if_pos ⟨rfl, ht⟩]

end TypeLedger
