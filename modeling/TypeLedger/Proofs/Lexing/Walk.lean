import TypeLedger.Source.Cursor

/-!
# Texts and the tokens they hold

* `Text.bytes` are the bytes of a text; those of two texts stand one behind the other.
* `Lexes`: from whatever place a walk reaches some bytes, it reads tokens of given kinds to the end.
* `Lexes.pass`, `Lexes.token`: the two steps of a walk, over a blank or a comment and over a token.
* `kinds_of_lexes`: the tokens of a text that lexes.
-/

namespace TypeLedger

/-! ## 1. Bytes -/

theorem toList_loop (bs : ByteArray) (i : Nat) (done : List UInt8) :
    ByteArray.toList.loop bs i done = done.reverse ++ bs.data.toList.drop i := by
  fun_induction ByteArray.toList.loop bs i done with
  | case1 i done h ih =>
    have hd : bs.data.toList.drop i = bs.get! i :: bs.data.toList.drop (i + 1) := by
      have hi : i < bs.data.toList.length := by simpa using h
      have hget : bs.data.toList[i] = bs.get! i := by
        simp only [ByteArray.get!, Array.getElem_toList]
        exact (getElem!_pos bs.data i (by simpa using h)).symm
      rw [List.drop_eq_getElem_cons hi, hget]
    rw [ih, hd]
    simp
  | case2 i done h =>
    have hlen : bs.data.toList.length ≤ i := by simpa using h
    rw [List.drop_eq_nil_of_le hlen, List.append_nil]

theorem toList_byteArray (bs : ByteArray) : bs.toList = bs.data.toList :=
  toList_loop bs 0 []

namespace Text

/-- The bytes of a text. -/
def bytes (s : String) : List UInt8 := s.toUTF8.toList

@[simp] theorem bytes_append (s t : String) : bytes (s ++ t) = bytes s ++ bytes t := by
  simp only [bytes, String.toUTF8_eq_toByteArray, String.toByteArray_append, toList_byteArray,
    ByteArray.toList_data_append]

/-- The byte of a character of ASCII. -/
theorem utf8EncodeChar_ascii {c : Char} (h : c.toNat < 128) :
    String.utf8EncodeChar c = [asciiByte c] := by
  have hle : c.val.toNat ≤ 127 := by
    have : c.toNat = c.val.toNat := rfl
    omega
  unfold String.utf8EncodeChar
  simp only [hle, ↓reduceIte]
  rfl

theorem bytes_ofList {cs : List Char} (h : ∀ c ∈ cs, c.toNat < 128) :
    bytes (String.ofList cs) = cs.map asciiByte := by
  rw [bytes, String.toUTF8_eq_toByteArray, String.toByteArray_ofList, toList_byteArray]
  induction cs with
  | nil => rfl
  | cons c cs ih =>
    obtain ⟨hc, hcs⟩ := List.forall_mem_cons.1 h
    rw [List.utf8Encode_cons, ByteArray.toList_data_append, ih hcs, List.utf8Encode_singleton,
      List.toList_data_toByteArray, utf8EncodeChar_ascii hc]
    rfl

/-- All characters of the text are ASCII. -/
def isAscii (s : String) : Bool := s.toList.all fun c => c.toNat < 128

theorem isAscii_iff {s : String} : isAscii s = true ↔ ∀ c ∈ s.toList, c.toNat < 128 := by
  simp only [isAscii, List.all_eq_true, decide_eq_true_iff]

theorem bytes_of_isAscii {s : String} (h : isAscii s = true) :
    bytes s = s.toList.map asciiByte := by
  rw [← bytes_ofList (isAscii_iff.1 h), String.ofList_toList]

end Text

/-! ## 2. Walks -/

theorem Scanned.behind_ok {α β : Type} {n m k : Nat} (f : α → β) (v : α) (h : n + m = k) :
    (Scanned.ok v m).behind n f = .ok (f v) k := by
  subst h
  rfl

namespace Cursor

variable {c : Cursor} {b : UInt8} {bs : List UInt8}

theorem next_nil (hc : c.rest = []) : c.next = .finished c.midLine := by
  unfold next
  split
  · rfl
  · rename_i h
    rw [hc] at h
    cases h

/-- What is in front of a walk is passed over, or it is a token, or it is neither. -/
theorem next_cons (hc : c.rest = b :: bs) : c.next =
    match trivia c.atLineStart b bs with
    | some t =>
      match t.outcome with
      | .ok () => (c.skip (1 + t.width)).next
      | .error f => .failed ⟨c.location, .lex f⟩ (c.skip (1 + t.width))
    | none =>
      match (scanToken b bs).outcome with
      | .ok k => .token ⟨k, c.location⟩ (c.midLine.skip (scanToken b bs).width)
      | .error f => .failed ⟨c.location, .lex f⟩ (c.midLine.skip (scanToken b bs).width) := by
  conv => lhs; unfold next
  split
  · rename_i h
    rw [hc] at h
    cases h
  · rename_i h
    rw [hc] at h
    cases h
    rfl

theorem next_pass {n : Nat} (hc : c.rest = b :: bs)
    (ht : trivia c.atLineStart b bs = some (.ok () n)) : c.next = (c.skip (1 + n)).next := by
  rw [next_cons hc, ht]
  rfl

theorem next_token {k : TokenKind} {n : Nat} (hc : c.rest = b :: bs)
    (ht : trivia c.atLineStart b bs = none) (hs : scanToken b bs = .ok k n) :
    c.next = .token ⟨k, c.location⟩ (c.midLine.skip n) := by
  rw [next_cons hc, ht, hs]
  rfl

theorem ofCursor_of_next_eq {c d : Cursor} (h : c.next = d.next) :
    Walk.ofCursor c = Walk.ofCursor d := by
  rw [Walk.ofCursor, Walk.ofCursor, h]

end Cursor

/-- From whatever place it reaches the bytes, a walk reads tokens of these kinds and nothing
else. -/
def Lexes (bs : List UInt8) (ks : List TokenKind) : Prop :=
  ∀ c : Cursor, c.rest = bs →
    (Walk.ofCursor c).error = none ∧ (Walk.ofCursor c).tokens.map Token.kind = ks

theorem lexes_nil : Lexes [] [] := by
  intro c hc
  rw [Walk.ofCursor, Cursor.next_nil hc]
  exact ⟨rfl, rfl⟩

/-- A walk passes over a blank or a comment in front of it. -/
theorem Lexes.pass {b : UInt8} {bs : List UInt8} {n : Nat} {ks : List TokenKind}
    (ht : ∀ atLineStart, trivia atLineStart b bs = some (.ok () n))
    (h : Lexes (bs.drop n) ks) : Lexes (b :: bs) ks := by
  intro c hc
  rw [Cursor.ofCursor_of_next_eq (Cursor.next_pass hc (ht _))]
  exact h _ (by rw [Cursor.rest_skip, hc, Nat.add_comm, List.drop_succ_cons])

theorem commentWidth_of_ne {b : UInt8} (hb : b ≠ asciiByte '*') (bs : List UInt8) :
    commentWidth (b :: bs) = (commentWidth bs).behind 1 id :=
  if_neg fun h => hb h.1

/-- A walk passes over a blank. -/
theorem Lexes.blank {b : UInt8} {bs : List UInt8} {ks : List TokenKind} (hb : isSpaceByte b = true)
    (h : Lexes bs ks) : Lexes (b :: bs) ks :=
  Lexes.pass (n := 0) (fun _ => by rw [trivia.eq_def, if_pos hb]) h

/-- A walk reads the token in front of it. -/
theorem Lexes.token {b : UInt8} {bs : List UInt8} {k : TokenKind} {n : Nat} {ks : List TokenKind}
    (ht : ∀ atLineStart, trivia atLineStart b bs = none)
    (hs : scanToken b bs = .ok k n) (h : Lexes ((b :: bs).drop n) ks) :
    Lexes (b :: bs) (k :: ks) := by
  intro c hc
  have hw : Walk.ofCursor c = (Walk.ofCursor (c.midLine.skip n)).cons ⟨k, c.location⟩ := by
    conv => lhs; rw [Walk.ofCursor]
    rw [Cursor.next_token hc (ht _) hs]
  obtain ⟨he, hk⟩ := h (c.midLine.skip n) (by rw [Cursor.rest_skip, Cursor.midLine, hc])
  rw [hw]
  exact ⟨he, by rw [Walk.cons, List.map_cons, hk]⟩

/-- A text that `Lexes` has tokens of these kinds. -/
theorem kinds_of_lexes {bs : List UInt8} {ks : List TokenKind} (h : Lexes bs ks) :
    ∃ ts stop, tokenize bs = .ok (ts, stop) ∧ ts.map Token.kind = ks := by
  obtain ⟨he, hk⟩ := h (.ofBytes bs) rfl
  refine ⟨(Walk.ofBytes bs).tokens, (Walk.ofBytes bs).stop, ?_, hk⟩
  have he' : (Walk.ofBytes bs).error = none := he
  simp only [tokenize, he']

end TypeLedger
