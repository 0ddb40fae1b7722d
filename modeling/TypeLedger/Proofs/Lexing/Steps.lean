import TypeLedger.Proofs.Lexing.Walk

/-!
# The steps of a walk

* `Lexed`: what a walk reads from some bytes on, step by step. It depends on the bytes and on
  whether a token stands on the line so far, and not on the location.
* `lexed_walk`, `Lexed.walk`: the tokens of a walk without an error are those of its steps.
* `lexed_iff_tokenize`: the same of a whole text.
-/

namespace TypeLedger

/-! ## 1. One step of a walk -/

namespace Cursor

@[simp] theorem rest_midLine (c : Cursor) : c.midLine.rest = c.rest := rfl

@[simp] theorem atLineStart_midLine (c : Cursor) : c.midLine.atLineStart = false := rfl

/-- A line feed on the way opens a line. -/
theorem atLineStart_skip (n : Nat) (c : Cursor) :
    (c.skip n).atLineStart = (c.atLineStart || (c.rest.take n).contains lineFeed) := by
  induction n generalizing c with
  | zero => simp [skip]
  | succ n ih =>
    rcases c with ⟨_ | ⟨b, bs⟩, l, s⟩
    · simp [skip]
    · rw [skip, ih]
      by_cases hb : b = lineFeed
      · simp [hb]
      · have hne : (lineFeed == b) = false := by simpa using Ne.symm hb
        have hne' : (b == lineFeed) = false := by simpa using hb
        simp only [List.take_succ_cons, List.contains_cons, hne, hne', Bool.false_or]

end Cursor

theorem contains_eq_false {bs : List UInt8} (h : lineFeed ∉ bs) : bs.contains lineFeed = false := by
  rw [Bool.eq_false_iff]
  exact mt List.contains_iff_mem.1 h

namespace Walk

variable {c : Cursor} {b : UInt8} {bs : List UInt8}

theorem ofCursor_nil (hc : c.rest = []) : ofCursor c = ⟨[], none, c.location⟩ := by
  rw [ofCursor, Cursor.next_nil hc]
  rfl

/-- A blank, a comment or a directive is passed over. -/
theorem ofCursor_pass {n : Nat} (hc : c.rest = b :: bs)
    (ht : trivia c.atLineStart b bs = some (.ok () n)) :
    ofCursor c = ofCursor (c.skip (1 + n)) :=
  Cursor.ofCursor_of_next_eq (Cursor.next_pass hc ht)

/-- A token is read. -/
theorem ofCursor_token {k : TokenKind} {n : Nat} (hc : c.rest = b :: bs)
    (ht : trivia c.atLineStart b bs = none) (hs : scanToken b bs = .ok k n) :
    ofCursor c = (ofCursor (c.midLine.skip n)).cons ⟨k, c.location⟩ := by
  conv => lhs; rw [ofCursor]
  rw [Cursor.next_token hc ht hs]

/-- A walk without an error goes on: what is in front of it is passed over or a token. -/
theorem front_of_error_eq_none (hc : c.rest = b :: bs) (he : (ofCursor c).error = none) :
    (∃ n, trivia c.atLineStart b bs = some (.ok () n)) ∨
      (trivia c.atLineStart b bs = none ∧ ∃ k n, scanToken b bs = .ok k n) := by
  rw [ofCursor, Cursor.next_cons hc] at he
  cases ht : trivia c.atLineStart b bs with
  | some t =>
    obtain ⟨_ | u, n⟩ := t
    · rw [ht] at he
      cases he
    · exact .inl ⟨n, rfl⟩
  | none =>
    refine .inr ⟨rfl, ?_⟩
    rw [ht] at he
    rcases hs : scanToken b bs with ⟨f | k, n⟩
    · rw [hs] at he
      cases he
    · exact ⟨k, n, rfl⟩

end Walk

/-! ## 2. All steps of a walk -/

/-- What a walk reads from some bytes on; the flag says whether only blanks, comments and directives
stand on the line so far. -/
inductive Lexed : Bool → List UInt8 → List TokenKind → Prop
  | done {s : Bool} : Lexed s [] []
  | pass {s : Bool} {b : UInt8} {bs : List UInt8} {n : Nat} {ks : List TokenKind}
      (ht : trivia s b bs = some (.ok () n))
      (h : Lexed (s || (b :: bs.take n).contains lineFeed) (bs.drop n) ks) : Lexed s (b :: bs) ks
  | token {s : Bool} {b : UInt8} {bs : List UInt8} {k : TokenKind} {n : Nat} {ks : List TokenKind}
      (ht : trivia s b bs = none) (hs : scanToken b bs = .ok k n)
      (h : Lexed (((b :: bs).take n).contains lineFeed) ((b :: bs).drop n) ks) :
      Lexed s (b :: bs) (k :: ks)

namespace Lexed

/-- Wherever a walk reaches the bytes, it reads these tokens. -/
theorem walk {s : Bool} {bs : List UInt8} {ks : List TokenKind} (h : Lexed s bs ks) :
    ∀ c : Cursor, c.rest = bs → c.atLineStart = s →
      (Walk.ofCursor c).error = none ∧ (Walk.ofCursor c).tokens.map Token.kind = ks := by
  induction h with
  | done =>
    intro c hc _
    rw [Walk.ofCursor_nil hc]
    exact ⟨rfl, rfl⟩
  | @pass s b bs n ks ht _ ih =>
    intro c hc hs
    rw [Walk.ofCursor_pass hc (hs ▸ ht)]
    refine ih _ ?_ ?_
    · rw [Cursor.rest_skip, hc, Nat.add_comm, List.drop_succ_cons]
    · rw [Cursor.atLineStart_skip, hc, hs, Nat.add_comm, List.take_succ_cons]
  | @token s b bs k n ks ht hs _ ih =>
    intro c hc hl
    rw [Walk.ofCursor_token hc (hl ▸ ht) hs]
    obtain ⟨he, hk⟩ := ih (c.midLine.skip n)
      (by rw [Cursor.rest_skip, Cursor.rest_midLine, hc])
      (by rw [Cursor.atLineStart_skip, Cursor.atLineStart_midLine, Bool.false_or,
        Cursor.rest_midLine, hc])
    exact ⟨he, by rw [Walk.cons, List.map_cons, hk]⟩

end Lexed

/-- **A walk without an error has read its text step by step** (`Lexed`). The induction is on the
number of bytes to come. -/
theorem lexed_walk (c : Cursor) (he : (Walk.ofCursor c).error = none) :
    Lexed c.atLineStart c.rest ((Walk.ofCursor c).tokens.map Token.kind) := by
  cases hc : c.rest with
  | nil =>
    rw [Walk.ofCursor_nil hc]
    exact .done
  | cons b bs =>
    rcases Walk.front_of_error_eq_none hc he with ⟨n, ht⟩ | ⟨ht, k, n, hs⟩
    · have hlt := Cursor.length_rest_skip_lt (n := 1 + n) (by omega) hc
      rw [Walk.ofCursor_pass hc ht] at he ⊢
      have ih := lexed_walk _ he
      rw [Cursor.rest_skip, Cursor.atLineStart_skip, hc, Nat.add_comm, List.drop_succ_cons,
        List.take_succ_cons, Nat.add_comm] at ih
      exact .pass ht ih
    · have hpos : 0 < n := by
        have := width_scanToken_pos b bs
        rwa [hs] at this
      have hlt := Cursor.length_rest_skip_lt (c := c.midLine) hpos hc
      have hlt' : (c.midLine.skip n).rest.length < c.rest.length := hlt
      rw [Walk.ofCursor_token hc ht hs] at he ⊢
      have ih := lexed_walk (c.midLine.skip n) he
      rw [Cursor.rest_skip, Cursor.atLineStart_skip, Cursor.atLineStart_midLine, Bool.false_or,
        Cursor.rest_midLine, hc] at ih
      exact .token ht hs ih
termination_by c.rest.length

/-- **A text has tokens of some kinds exactly if its steps read them:** `Lexed` says what `tokenize`
does. -/
theorem lexed_iff_tokenize {bs : List UInt8} {ks : List TokenKind} :
    Lexed true bs ks ↔ ∃ ts stop, tokenize bs = .ok (ts, stop) ∧ ts.map Token.kind = ks := by
  constructor
  · intro h
    obtain ⟨he, hk⟩ := h.walk (.ofBytes bs) rfl rfl
    refine ⟨(Walk.ofBytes bs).tokens, (Walk.ofBytes bs).stop, ?_, hk⟩
    have he' : (Walk.ofBytes bs).error = none := he
    simp only [tokenize, he']
  · rintro ⟨ts, stop, h, rfl⟩
    unfold tokenize at h
    simp only at h
    split at h
    · cases h
    · rename_i he
      cases h
      exact lexed_walk (.ofBytes bs) he

end TypeLedger
