import Mathlib.Control.Monad.Basic
import Mathlib.Tactic.WLOG
import TypeLedger.Proofs.Lexing.Pieces
import TypeLedger.Proofs.Lexing.Scanned

/-!
# Where lexical errors stand

* `LexFault.StandsAt`: which bytes a fault says are at its place. `Opens`: a literal begins there,
  with or without the letter L.
* `standsAt_scanToken`, `standsAt_trivia`: where a scan has a fault, there stands what the fault
  says.
* `Location.across_take_inj`: no two places of a text have one location.
* `tokenize_error_stands`: the location of an error is one place of the text, and what the fault
  says stands there. `cut_char_is_string` is the character literal with the fault of a string.
-/

namespace TypeLedger

/-! ## 1. What a fault says -/

/-- The bytes begin with a literal, with or without the letter L: its quote is `q` and `r` stands
behind the quote. -/
def Opens (bs : List UInt8) (q : UInt8) (r : List UInt8) : Prop :=
  bs = q :: r ∨ bs = asciiByte 'L' :: q :: r

/-- What a fault says of the bytes from its place on. An unterminated string may be a character
literal, if the text ends behind the backslash of an escape. -/
def LexFault.StandsAt (bs : List UInt8) : LexFault → Prop
  | .unterminatedComment => ∃ r, bs = asciiByte '/' :: asciiByte '*' :: r
  | .invalidByte b => ∃ r, bs = b :: r
  | .invalidNumber _ => ∃ d r, isDigitByte d = true ∧ bs = d :: r
  | .unterminatedString =>
    (∃ r, Opens bs (asciiByte '"') r) ∨ Opens bs (asciiByte '\'') [asciiByte '\\']
  | .unterminatedChar | .emptyChar => ∃ r, Opens bs (asciiByte '\'') r
  | .invalidEscape _ => ∃ q r, isQuoteByte q = true ∧ Opens bs q r

/-! ## 2. Tokens -/

/-- **A literal's fault stands where the literal `Opens`,** the letter L included. -/
theorem standsAt_of_opens {q : UInt8} {r bs : List UInt8} {f : LexFault}
    (hq : isQuoteByte q = true) (h : (scanPlain q r).outcome = .error f) (ho : Opens bs q r) :
    f.StandsAt bs := by
  rw [isQuoteByte, Bool.or_eq_true, beq_iff_eq, beq_iff_eq] at hq
  unfold scanPlain at h
  rcases hq with rfl | rfl
  · rw [if_pos rfl, Scanned.outcome_behind_eq_error] at h
    obtain rfl | ⟨b, rfl⟩ := fault_scanString h
    · exact .inl ⟨r, ho⟩
    · exact ⟨_, r, rfl, ho⟩
  · rw [if_neg (by decide), if_pos rfl, Scanned.outcome_behind_eq_error] at h
    obtain rfl | rfl | ⟨b, rfl⟩ | ⟨rfl, rfl⟩ := fault_scanChar h
    · exact ⟨r, ho⟩
    · exact ⟨r, ho⟩
    · exact ⟨_, r, rfl, ho⟩
    · exact .inr ho

theorem standsAt_scanPlain {b : UInt8} {bs : List UInt8} {f : LexFault}
    (h : (scanPlain b bs).outcome = .error f) : f.StandsAt (b :: bs) := by
  cases hq : isQuoteByte b with
  | true => exact standsAt_of_opens hq h (.inl rfl)
  | false =>
    rw [isQuoteByte, Bool.or_eq_false_iff, beq_eq_false_iff_ne, beq_eq_false_iff_ne] at hq
    unfold scanPlain at h
    rw [if_neg hq.1, if_neg hq.2] at h
    split at h
    · cases h
    split at h
    · rename_i hdigit
      rw [fault_numberToken h]
      exact ⟨b, bs, hdigit, rfl⟩
    · rw [fault_scanMark h]
      exact ⟨bs, rfl⟩

theorem standsAt_scanToken {b : UInt8} {bs : List UInt8} {f : LexFault}
    (h : (scanToken b bs).outcome = .error f) : f.StandsAt (b :: bs) := by
  unfold scanToken at h
  split at h
  · rename_i q rest
    split at h
    · rename_i hwide
      rw [hwide.1]
      exact standsAt_of_opens hwide.2 (Scanned.outcome_behind_eq_error.1 h) (.inr rfl)
    · exact standsAt_scanPlain h
  · exact standsAt_scanPlain h

/-! ## 3. Comments -/

theorem fault_commentWidth {bs : List UInt8} {f : LexFault}
    (h : (commentWidth bs).outcome = .error f) : f = .unterminatedComment := by
  induction bs with
  | nil => exact (Except.error.inj h).symm
  | cons b bs ih =>
    unfold commentWidth at h
    split at h
    · cases h
    · exact ih (Scanned.outcome_behind_eq_error.1 h)

/-- Of all that stands between tokens only a comment has a fault. -/
theorem standsAt_trivia {s : Bool} {b : UInt8} {bs : List UInt8} {t : Scanned Unit} {f : LexFault}
    (ht : trivia s b bs = some t) (h : t.outcome = .error f) : f.StandsAt (b :: bs) := by
  unfold trivia at ht
  split at ht
  · cases ht
    cases h
  split at ht
  · rename_i hslash
    split at ht
    · rename_i c cs
      split at ht
      · cases ht
        cases h
      split at ht
      · rename_i hstar
        cases ht
        rw [fault_commentWidth (Scanned.outcome_behind_eq_error.1 h), hslash, hstar]
        exact ⟨cs, rfl⟩
      · cases ht
    · cases ht
  split at ht
  · cases ht
    cases h
  · cases ht

/-- **What a fault says stands in front of the walk that `Fails`.** -/
theorem Cursor.Fails.standsAt {c : Cursor} {f : LexFault} (h : c.Fails f) : f.StandsAt c.rest := by
  cases h with
  | trivia hc ht =>
    rw [hc]
    exact standsAt_trivia ht rfl
  | token hc ht hs =>
    rw [hc]
    exact standsAt_scanToken (congrArg Scanned.outcome hs)

/-! ## 4. Locations -/

namespace Location

/-- Behind some bytes the line is a later one, or the column is as many bytes further on. -/
theorem line_across (l : Location) (bs : List UInt8) : l.line < (l.across bs).line ∨
    (l.across bs).line = l.line ∧ (l.across bs).column = l.column + bs.length := by
  induction bs generalizing l with
  | nil => exact .inr ⟨rfl, rfl⟩
  | cons b bs ih =>
    have hb : l.line < (l.after b).line ∨
        (l.after b).line = l.line ∧ (l.after b).column = l.column + 1 := by
      unfold after
      split
      · exact .inl (Nat.lt_succ_self _)
      · exact .inr ⟨rfl, rfl⟩
    have hbs := ih (l.after b)
    rw [across_cons, List.length_cons]
    omega

theorem eq_nil_of_across_eq {l : Location} {bs : List UInt8} (h : l.across bs = l) : bs = [] := by
  have hline := line_across l bs
  rw [h] at hline
  refine List.length_eq_zero_iff.1 ?_
  omega

/-- **No two places of a text have one location:** `Location.across` counts them apart. -/
theorem across_take_inj {l : Location} {bs : List UInt8} {p q : Nat} (hp : p ≤ bs.length)
    (hq : q ≤ bs.length) (h : l.across (bs.take p) = l.across (bs.take q)) : p = q := by
  wlog hpq : p ≤ q generalizing p q
  · exact (this hq hp h.symm (Nat.le_of_not_le hpq)).symm
  obtain ⟨n, rfl⟩ := Nat.exists_eq_add_of_le hpq
  rw [List.take_add, across_append] at h
  have hnil := congrArg List.length (eq_nil_of_across_eq h.symm)
  rw [List.length_take, List.length_drop, List.length_nil] at hnil
  omega

end Location

/-! ## 5. Texts -/

/-- **The location of a lexical error is one place of the text, and what the error says stands
there** (`LexFault.StandsAt`). -/
theorem tokenize_error_stands {bs : List UInt8} {e : SourceError} (h : tokenize bs = .error e) :
    ∃ p f, p ≤ bs.length ∧ e.location = Location.start.across (bs.take p) ∧
      (∀ q ≤ bs.length, e.location = Location.start.across (bs.take q) → q = p) ∧
      e.fault = .lex f ∧ f.StandsAt (bs.drop p) := by
  obtain ⟨ps, d, f, hw, hf, rfl⟩ := walked_of_tokenize_error h
  have hrest : bs = ps.flatMap Piece.bytes ++ d.rest := hw.rest
  have hlocation : d.location = Location.start.across (ps.flatMap Piece.bytes) := hw.location
  have htake : bs.take (ps.flatMap Piece.bytes).length = ps.flatMap Piece.bytes := by
    rw [hrest, List.take_left]
  have hle : (ps.flatMap Piece.bytes).length ≤ bs.length := by
    rw [hrest, List.length_append]
    exact Nat.le_add_right _ _
  refine ⟨(ps.flatMap Piece.bytes).length, f, hle, by rw [htake]; exact hlocation,
    fun q hq he => ?_, rfl, ?_⟩
  · rw [← htake] at hlocation
    exact Location.across_take_inj hq hle (he.symm.trans hlocation)
  · rw [hrest, List.drop_left]
    exact hf.standsAt

/-- A character literal with two letters, on the second line. -/
def lettersSource : String := "x\n  L'ab'"

/-- The error stands at the letter L, the fifth byte of the text. -/
theorem tokenize_error_stands_letters :
    tokenize lettersSource.toUTF8.toList = .error ⟨⟨2, 3⟩, .lex .unterminatedChar⟩ ∧
      ∃ r, Opens (lettersSource.toUTF8.toList.drop 4) (asciiByte '\'') r := by
  have h : tokenize lettersSource.toUTF8.toList = .error ⟨⟨2, 3⟩, .lex .unterminatedChar⟩ := by
    decide +kernel
  obtain ⟨p, f, -, -, hunique, hfault, hstands⟩ := tokenize_error_stands h
  have hp : 4 = p := hunique 4 (by decide +kernel) (by decide +kernel)
  cases hfault
  rw [hp]
  exact ⟨h, hstands⟩

/-- A character literal of a quote and a backslash. -/
def cutSource : List UInt8 := [asciiByte '\'', asciiByte '\\']

/-- **A character literal that the end of the text cuts off behind a backslash is an unterminated
string,** and no string literal opens at the place of the error (`Opens`). -/
theorem cut_char_is_string :
    tokenize cutSource = .error ⟨.start, .lex .unterminatedString⟩ ∧
      ∀ p ≤ cutSource.length, Location.start.across (cutSource.take p) = .start →
        ¬ ∃ r, Opens (cutSource.drop p) (asciiByte '"') r := by
  refine ⟨by decide +kernel, fun p hp hstart => ?_⟩
  obtain rfl : p = 0 := Location.across_take_inj hp (Nat.zero_le _) hstart
  rintro ⟨r, h | h⟩
  · exact absurd (List.cons.inj h).1 (by decide)
  · exact absurd (List.cons.inj h).1 (by decide)

end TypeLedger
