import TypeLedger.Proofs.Lexing.Spelled

/-!
# The identifiers of a text

* `TokenKind.Scans`: where a token of a text comes from. All that a scan makes is said there once,
  and `scans_tokenize` carries it to the tokens of a whole text.
* `Worded`: every identifier among some tokens is a word that is not reserved. `worded_tokenize`:
  the tokens of a text are worded.
* `Vocabulary`: what may stand in a text. It covers the tokens of the text and all that is left of
  them on the way.
-/

namespace TypeLedger

/-- Every identifier among the tokens is a word that is not reserved. -/
def Worded (ts : List Token) : Prop :=
  ∀ t ∈ ts, ∀ name, t.kind = .ident name → isIdentifier name = true

/-! ## 1. Bytes and characters -/

/-- What holds of the bytes with the first 256 numbers holds of every byte. -/
theorem forall_byte {p : UInt8 → Prop} (h : ∀ n < 256, p (UInt8.ofNat n)) (b : UInt8) : p b := by
  have := h b.toNat b.toNat_lt
  rwa [UInt8.ofNat_toNat] at this

theorem isWordChar_byteChar {b : UInt8} (h : isWordByte b = true) :
    isWordChar (byteChar b) = true := by
  refine forall_byte (p := fun b => isWordByte b = true → isWordChar (byteChar b) = true) ?_ b h
  decide +kernel

theorem isWordStart_byteChar {b : UInt8} (h : (isLetterByte b || b == asciiByte '_') = true) :
    isWordStart (byteChar b) = true := by
  refine forall_byte (p := fun b => (isLetterByte b || b == asciiByte '_') = true →
    isWordStart (byteChar b) = true) ?_ b h
  decide +kernel

/-- The text of a word's bytes is a word. -/
theorem isWord_byteText {b : UInt8} {bs : List UInt8}
    (h : (isLetterByte b || b == asciiByte '_') = true) :
    isWord (byteText (b :: bs.takeWhile isWordByte)) = true := by
  rw [isWord, byteText, String.toList_ofList, List.map_cons, Bool.and_eq_true, List.all_eq_true]
  refine ⟨isWordStart_byteChar h, fun c hc => ?_⟩
  obtain ⟨d, hd, rfl⟩ := List.mem_map.1 hc
  exact isWordChar_byteChar (List.all_eq_true.1 List.all_takeWhile d hd)

/-! ## 2. Tokens -/

theorem outcome_behind {α β : Type} {n : Nat} {f : α → β} {s : Scanned α} {w : β}
    (h : (s.behind n f).outcome = .ok w) : ∃ v, s.outcome = .ok v ∧ f v = w := by
  unfold Scanned.behind at h
  cases ho : s.outcome with
  | error e => rw [ho] at h; cases h
  | ok v => rw [ho] at h; exact ⟨v, rfl, Except.ok.inj h⟩

/-- Where a token may come from. -/
inductive TokenKind.Scans : TokenKind → Prop
  | string (value : List UInt8) : Scans (.stringLit value)
  | char (value : UInt8) : Scans (.charLit value)
  | number (value : UInt64) : Scans (.intLit value)
  | word {w : String} (h : isWord w = true) : Scans (wordToken w)
  | mark (m : Mark) : Scans (.mark m)
  | byte {b : UInt8} {k : TokenKind} (h : byteToken? b = some k) : Scans k

theorem scans_scanMark {b : UInt8} {bs : List UInt8} {k : TokenKind}
    (h : (scanMark b bs).outcome = .ok k) : k.Scans := by
  unfold scanMark at h
  split at h
  · cases h
    exact .mark _
  · split at h
    · cases h
      exact .mark _
    · split at h
      · cases h
        exact .byte ‹_›
      · cases h

theorem scans_scanPlain {b : UInt8} {bs : List UInt8} {k : TokenKind}
    (h : (scanPlain b bs).outcome = .ok k) : k.Scans := by
  unfold scanPlain at h
  split at h
  · obtain ⟨v, -, rfl⟩ := outcome_behind h
    exact .string v
  · split at h
    · obtain ⟨v, -, rfl⟩ := outcome_behind h
      exact .char v
    · split at h
      · cases h
        exact .word (isWord_byteText ‹_›)
      · split at h
        · have hn : numberToken (b :: bs.takeWhile isAlnumByte) = .ok k := h
          unfold numberToken at hn
          split at hn
          · cases hn
            exact .number _
          · cases hn
        · exact scans_scanMark h

/-- **A scanned token** is a literal, the token of a word, a mark, or that of a byte
(`TokenKind.Scans`). -/
theorem scans_scanToken {b : UInt8} {bs : List UInt8} {k : TokenKind}
    (h : (scanToken b bs).outcome = .ok k) : k.Scans := by
  unfold scanToken at h
  split at h
  · split at h
    · obtain ⟨v, hv, rfl⟩ := outcome_behind h
      exact scans_scanPlain hv
    · exact scans_scanPlain h
  · exact scans_scanPlain h

/-- The only place where an identifier is made is `wordToken`. -/
theorem TokenKind.Scans.isIdentifier {k : TokenKind} {name : String} (h : k.Scans)
    (hk : k = .ident name) : isIdentifier name = true := by
  cases h with
  | string | char | number | mark => cases hk
  | word hw =>
    unfold wordToken at hk
    split at hk
    · cases hk
    · rename_i hnone
      cases hk
      rw [TypeLedger.isIdentifier, hw, hnone]
      rfl
  | byte hb =>
    subst hk
    unfold byteToken? at hb
    split at hb <;> cases hb

/-! ## 3. Texts -/

theorem scans_next {c c' : Cursor} {t : Token} (h : c.next = .token t c') : t.kind.Scans := by
  fun_induction Cursor.next c with
  | case1 => cases h
  | case2 c b bs hc t' ht ho ih => exact ih h
  | case3 => cases h
  | case4 c b bs hc ht s behind k ho =>
    obtain ⟨rfl, -⟩ := Cursor.Next.token.inj h
    exact scans_scanToken ho
  | case5 => cases h

theorem scans_walk (c : Cursor) : ∀ t ∈ (Walk.ofCursor c).tokens, t.kind.Scans := by
  fun_induction Walk.ofCursor c with
  | case1 c t c' hc ih => exact List.forall_mem_cons.2 ⟨scans_next hc, ih⟩
  | case2 => exact fun t ht => by cases ht
  | case3 => exact fun t ht => by cases ht

/-- All tokens of a text are scanned. -/
theorem scans_tokenize {bs : List UInt8} {ts : List Token} {stop : Location}
    (h : tokenize bs = .ok (ts, stop)) : ∀ t ∈ ts, t.kind.Scans := by
  unfold tokenize at h
  simp only at h
  split at h
  · cases h
  · cases h
    exact scans_walk _

/-- **Every identifier among the tokens of a text is a word that is not reserved** (`Worded`). -/
theorem worded_tokenize {bs : List UInt8} {ts : List Token} {stop : Location}
    (h : tokenize bs = .ok (ts, stop)) : Worded ts :=
  fun t ht _ hk => (scans_tokenize h t ht).isIdentifier hk

/-! ## 4. Vocabularies -/

/-- What may stand in a text: the identifiers, the word for complex types, and the names behind the
keywords of records. -/
structure Vocabulary where
  ident : String → Prop
  complex : Prop
  tagged : RecordKey → String → Prop
  isIdentifier : ∀ n, ident n → isIdentifier n = true

namespace Vocabulary

/-- Whatever a text may hold. -/
def all : Vocabulary where
  ident n := TypeLedger.isIdentifier n = true
  complex := True
  tagged _ _ := True
  isIdentifier _ h := h

/-- What stands in the tokens of a text. -/
def ofTokens (ts : List Token) (h : Worded ts) : Vocabulary where
  ident n := ∃ t ∈ ts, t.kind = .ident n
  complex := ∃ t ∈ ts, t.kind = .keyword .complex
  tagged key n := [.keyword (.record key), .ident n] <:+: ts.map Token.kind
  isIdentifier := fun n ⟨t, ht, hk⟩ => h t ht n hk

/-- The vocabulary has all that stands in the tokens. -/
structure Covers (V : Vocabulary) (ts : List Token) : Prop where
  ident : ∀ t ∈ ts, ∀ n, t.kind = .ident n → V.ident n
  complex : ∀ t ∈ ts, t.kind = .keyword .complex → V.complex
  tagged : ∀ key n, [.keyword (.record key), .ident n] <:+: ts.map Token.kind → V.tagged key n

theorem covers_all {ts : List Token} (h : Worded ts) : all.Covers ts :=
  ⟨h, fun _ _ _ => trivial, fun _ _ _ => trivial⟩

theorem covers_ofTokens {ts : List Token} (h : Worded ts) : (ofTokens ts h).Covers ts :=
  ⟨fun t ht _ hk => ⟨t, ht, hk⟩, fun t ht hk => ⟨t, ht, hk⟩, fun _ _ hi => hi⟩

variable {V : Vocabulary} {t : Token} {ts rest : List Token}

theorem Covers.of_suffix (h : V.Covers ts) (hr : rest <:+ ts) : V.Covers rest :=
  ⟨fun t ht => h.ident t (hr.subset ht), fun t ht => h.complex t (hr.subset ht),
    fun key n hi => h.tagged key n (hi.trans (hr.map _).isInfix)⟩

theorem Covers.tail (h : V.Covers (t :: ts)) : V.Covers ts :=
  h.of_suffix (List.suffix_cons t ts)

end Vocabulary

end TypeLedger
