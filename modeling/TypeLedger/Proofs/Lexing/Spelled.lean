import TypeLedger.Fragment
import TypeLedger.Proofs.Identifier
import TypeLedger.Proofs.Lexing.Walk

/-!
# Texts that lex wherever they stand

* `Spelled s ks`: in front of anything that does not run into it, the text `s` lexes to tokens of
  kinds `ks`. `Clean` says what does not run into a text: it begins with no letter, digit, quote or
  ampersand.
* Pieces are put together with `Spelled.append`, `Spelled.mark` and `Spelled.beside`.
* `spelled_word`, `spelled_numeral`: the smallest pieces.
-/

namespace TypeLedger

open Text (bytes)

/-! ## 1. Clean bytes -/

/-- A byte that belongs to no token begun in front of it. -/
def isCleanByte (b : UInt8) : Bool :=
  !isWordByte b && !isQuoteByte b && b != asciiByte '&'

/-- The bytes do not run into a token in front of them. -/
def Clean (bs : List UInt8) : Prop := bs.head?.all isCleanByte = true

instance (bs : List UInt8) : Decidable (Clean bs) :=
  inferInstanceAs (Decidable (_ = _))

theorem clean_nil : Clean [] := rfl

theorem Clean.append {as bs : List UInt8} (ha : Clean as) (hb : Clean bs) : Clean (as ++ bs) := by
  cases as with
  | nil => exact hb
  | cons a as => exact ha

/-- In front of clean bytes the text lexes to tokens of these kinds. -/
def Spelled (s : String) (ks : List TokenKind) : Prop :=
  ∀ tail kt, Clean tail → Lexes tail kt → Lexes (bytes s ++ tail) (ks ++ kt)

theorem bytes_empty : bytes "" = [] := Text.bytes_of_isAscii (by decide)

theorem spelled_empty : Spelled "" [] := by
  intro tail kt _ h
  rw [bytes_empty]
  exact h

theorem Spelled.lexes {s : String} {ks : List TokenKind} (h : Spelled s ks) :
    Lexes (bytes s) ks := by
  have := h [] [] clean_nil lexes_nil
  simpa using this

/-- A text behind which a `Clean` text stands. -/
theorem Spelled.append {s t : String} {ks kt : List TokenKind} (hs : Spelled s ks)
    (ht : Spelled t kt) (hc : Clean (bytes t)) : Spelled (s ++ t) (ks ++ kt) := by
  intro tail kr hclean htail
  have := hs (bytes t ++ tail) (kt ++ kr) (hc.append hclean) (ht tail kr hclean htail)
  simpa [List.append_assoc] using this

/-! ## 2. Marks -/

/-- The spelling of a mark. -/
def Mark.spelling : Mark → String
  | .parenOpen => "("
  | .parenClose => ")"
  | .bracketOpen => "["
  | .bracketClose => "]"
  | .braceOpen => "\x7b"
  | .braceClose => "\x7d"
  | .star => "*"
  | .amp => "&"
  | .ampAmp => "&&"
  | .caret => "^"
  | .comma => ","
  | .semicolon => ";"
  | .colon => ":"
  | .equals => "="
  | .ellipsis => "..."

theorem bytes_mark (m : Mark) : bytes m.spelling = m.spelling.toList.map asciiByte := by
  refine Text.bytes_of_isAscii ?_
  cases m <;> decide

theorem bytes_mark_ne_nil (m : Mark) : bytes m.spelling ≠ [] := by
  rw [bytes_mark]
  cases m <;> decide

/-- A mark `Lexes` in front of anything, a single ampersand in front of anything but another. -/
theorem lexes_mark {m : Mark} {bs : List UInt8} {ks : List TokenKind}
    (hm : m = .amp → bs.head? ≠ some (asciiByte '&')) (h : Lexes bs ks) :
    Lexes (bytes m.spelling ++ bs) (.mark m :: ks) := by
  rw [bytes_mark]
  cases m with
  | ampAmp => exact Lexes.token (fun _ => rfl) (n := 2) rfl h
  | ellipsis => exact Lexes.token (fun _ => rfl) (n := 3) rfl h
  | amp =>
    refine Lexes.token (fun _ => rfl) (n := 1) ?_ h
    cases bs with
    | nil => rfl
    | cons b bs =>
      have hb : b ≠ asciiByte '&' := fun he => hm rfl (by rw [he]; rfl)
      show scanPlain (asciiByte '&') (b :: bs) = _
      show scanMark (asciiByte '&') (b :: bs) = _
      have hif : ¬(asciiByte '&' = asciiByte '&' ∧ (b :: bs).head? = some (asciiByte '&')) := by
        rintro ⟨-, he⟩
        exact hb (Option.some.inj he)
      rw [scanMark, if_neg hif]
      rfl
  | _ => exact Lexes.token (fun _ => rfl) (n := 1) (by cases bs <;> rfl) h

/-- A mark in front of a text. -/
theorem Spelled.mark {s : String} {ks : List TokenKind} (m : Mark)
    (hm : m = .amp → (bytes s).head? ≠ some (asciiByte '&')) (h : Spelled s ks) :
    Spelled (m.spelling ++ s) (.mark m :: ks) := by
  intro tail kt hc ht
  rw [Text.bytes_append, List.append_assoc]
  refine lexes_mark (fun he hh => ?_) (h tail kt hc ht)
  cases hs : bytes s with
  | nil =>
    rw [hs, List.nil_append] at hh
    rw [Clean, hh] at hc
    revert hc
    decide
  | cons b bs =>
    rw [hs] at hh
    exact hm he (by rw [hs]; exact hh)

theorem spelled_mark (m : Mark) : Spelled m.spelling [.mark m] := by
  have h := Spelled.mark m (fun _ => by rw [bytes_empty]; simp) spelled_empty
  rwa [String.append_empty] at h

theorem clean_mark {m : Mark} (h : m ≠ .amp ∧ m ≠ .ampAmp) : Clean (bytes m.spelling) := by
  rw [bytes_mark]
  revert h
  cases m <;> decide

theorem clean_mark_append {m : Mark} (h : m ≠ .amp ∧ m ≠ .ampAmp) (s : String) :
    Clean (bytes (m.spelling ++ s)) := by
  have hc := clean_mark h
  rw [Text.bytes_append]
  cases hb : bytes m.spelling with
  | nil => exact absurd hb (bytes_mark_ne_nil m)
  | cons b bs => rw [hb] at hc; exact hc

/-! ## 3. Blanks and comments -/

theorem bytes_space : bytes " " = [asciiByte ' '] := Text.bytes_of_isAscii (by decide)

theorem spelled_space {s : String} {ks : List TokenKind} (h : Spelled s ks) :
    Spelled (" " ++ s) ks := by
  intro tail kt hc ht
  rw [Text.bytes_append, bytes_space]
  exact Lexes.blank (by decide) (h tail kt hc ht)

theorem clean_space (s : String) : Clean (bytes (" " ++ s)) := by
  rw [Text.bytes_append, bytes_space]
  exact (by decide : isCleanByte (asciiByte ' ') = true)

theorem bytes_line : bytes "\n" = [lineFeed] := Text.bytes_of_isAscii (by decide)

theorem spelled_line {s : String} {ks : List TokenKind} (h : Spelled s ks) :
    Spelled ("\n" ++ s) ks := by
  intro tail kt hc ht
  rw [Text.bytes_append, bytes_line]
  exact Lexes.blank (by decide) (h tail kt hc ht)

theorem clean_line (s : String) : Clean (bytes ("\n" ++ s)) := by
  rw [Text.bytes_append, bytes_line]
  exact (by decide : isCleanByte lineFeed = true)

/-- A comment ends at the first mark that ends one. -/
theorem commentWidth_append {as : List UInt8} (h : ∀ b ∈ as, b ≠ asciiByte '*')
    (tail : List UInt8) :
    commentWidth (as ++ asciiByte '*' :: asciiByte '/' :: tail) = .ok () (as.length + 2) := by
  induction as with
  | nil => exact if_pos ⟨rfl, rfl⟩
  | cons a as ih =>
    obtain ⟨ha, has⟩ := List.forall_mem_cons.1 h
    rw [List.cons_append, commentWidth_of_ne ha, ih has, List.length_cons]
    exact Scanned.behind_ok _ _ (by omega)

/-- A comment is no token. -/
theorem spelled_comment {s : String} (hs : ∀ b ∈ bytes s, b ≠ asciiByte '*') :
    Spelled ("/*" ++ (s ++ "*/")) [] := by
  intro tail kt _ h
  have hbytes : bytes ("/*" ++ (s ++ "*/")) ++ tail = asciiByte '/' :: asciiByte '*' ::
      (bytes s ++ asciiByte '*' :: asciiByte '/' :: tail) := by
    rw [Text.bytes_append, Text.bytes_append, Text.bytes_of_isAscii (s := "/*") (by decide),
      Text.bytes_of_isAscii (s := "*/") (by decide), List.append_assoc, List.append_assoc]
    rfl
  rw [hbytes]
  refine Lexes.pass (n := (bytes s).length + 3) (fun atLineStart => ?_) ?_
  · have hwidth := commentWidth_append hs tail
    show some ((commentWidth _).behind 1 id) = _
    rw [hwidth]
    exact congrArg some (Scanned.behind_ok _ _ (by omega))
  · simpa using h

theorem Lexes.unique {bs : List UInt8} {ks kt : List TokenKind} (h : Lexes bs ks)
    (h' : Lexes bs kt) : ks = kt :=
  (h (.ofBytes bs) rfl).2.symm.trans (h' (.ofBytes bs) rfl).2

theorem Spelled.eq_nil {ks : List TokenKind} (h : Spelled "" ks) : ks = [] :=
  h.lexes.unique spelled_empty.lexes

/-- Two pieces side by side. -/
theorem Spelled.beside {s t : String} {ks kt : List TokenKind} (hs : Spelled s ks)
    (ht : Spelled t kt) : Spelled (Fragment.beside s t) (ks ++ kt) := by
  unfold Fragment.beside
  split
  · rename_i he
    rw [String.isEmpty_iff.1 he] at ht
    rw [ht.eq_nil, List.append_nil]
    exact hs
  · split
    · rename_i he
      rw [String.isEmpty_iff.1 he] at hs
      rw [hs.eq_nil, List.nil_append]
      exact ht
    · rw [String.append_assoc]
      exact hs.append (spelled_space ht) (clean_space t)

/-! ## 4. Words -/

def isWordStart (c : Char) : Bool := c.isAlpha || c == '_'

def isWordChar (c : Char) : Bool := c.isAlphanum || c == '_'

/-- The text is a word: letters, digits and underscores, with no digit in front. -/
def isWord (s : String) : Bool :=
  match s.toList with
  | [] => false
  | c :: cs => isWordStart c && cs.all isWordChar

/-- The text is an identifier: a word that is not reserved. -/
def isIdentifier (s : String) : Bool := isWord s && (Keyword.ofWord? s).isNone

theorem ascii_of_isWordChar {c : Char} (h : isWordChar c = true) : c.toNat < 128 := by
  delta isWordChar Char.isAlphanum Char.isAlpha Char.isUpper Char.isLower Char.isDigit at h
  simp only [Bool.or_eq_true, Bool.and_eq_true, decide_eq_true_eq, beq_iff_eq, ge_iff_le,
    UInt32.le_iff_toNat_le] at h
  have hc : c.toNat = c.val.toNat := rfl
  rcases h with ((h | h) | h) | rfl
  · have := h.2
    simp at this
    omega
  · have := h.2
    simp at this
    omega
  · have := h.2
    simp at this
    omega
  · decide

theorem isWordChar_of_isWordStart {c : Char} (h : isWordStart c = true) : isWordChar c = true := by
  simp only [isWordStart, Bool.or_eq_true] at h
  simp only [isWordChar, Char.isAlphanum, Bool.or_eq_true]
  rcases h with h | h
  · exact .inl (.inl h)
  · exact .inr h

/-- What holds of the first 128 characters holds of every character of ASCII. -/
theorem forall_ascii {p : Char → Prop} (h : ∀ n < 128, p (Char.ofNat n)) {c : Char}
    (hc : c.toNat < 128) : p c := by
  have := h c.toNat hc
  rwa [Char.ofNat_toNat] at this

theorem byteChar_asciiByte {c : Char} (h : c.toNat < 128) : byteChar (asciiByte c) = c := by
  have : (asciiByte c).toNat = c.toNat := by
    rw [asciiByte, UInt8.toNat_ofNat']
    omega
  rw [byteChar, this, Char.ofNat_toNat]

theorem isWordByte_asciiByte {c : Char} (h : isWordChar c = true) :
    isWordByte (asciiByte c) = true := by
  refine forall_ascii (p := fun c => isWordChar c = true → isWordByte (asciiByte c) = true) ?_
    (ascii_of_isWordChar h) h
  decide

theorem isWordStartByte_asciiByte {c : Char} (h : isWordStart c = true) :
    (isLetterByte (asciiByte c) || asciiByte c == asciiByte '_') = true := by
  refine forall_ascii (p := fun c => isWordStart c = true →
    (isLetterByte (asciiByte c) || asciiByte c == asciiByte '_') = true) ?_
    (ascii_of_isWordChar (isWordChar_of_isWordStart h)) h
  decide

/-- A byte that is no blank, no slash and no hash begins a token. -/
theorem trivia_eq_none {b : UInt8} {bs : List UInt8} {atLineStart : Bool}
    (hb : isWordByte b = true) : trivia atLineStart b bs = none := by
  have hne : ∀ d : UInt8, isWordByte d = false → b ≠ d := by
    rintro d hd rfl
    rw [hd] at hb
    cases hb
  have hs : ¬isSpaceByte b = true := by
    simp only [isSpaceByte, Bool.or_eq_true, beq_iff_eq, not_or]
    exact ⟨⟨⟨⟨hne _ (by decide), hne _ (by decide)⟩, hne _ (by decide)⟩, hne _ (by decide)⟩,
      hne _ (by decide)⟩
  rw [trivia.eq_def, if_neg hs, if_neg (hne _ (by decide)),
    if_neg fun h => hne _ (by decide) h.1]

theorem not_isQuoteByte {b : UInt8} (hb : isWordByte b = true) : isQuoteByte b = false := by
  cases hq : isQuoteByte b with
  | false => rfl
  | true =>
    simp only [isQuoteByte, Bool.or_eq_true, beq_iff_eq] at hq
    rcases hq with rfl | rfl <;> revert hb <;> decide

/-- No letter L is dropped in front of a word or of clean bytes. -/
theorem scanToken_eq_scanPlain {b : UInt8} {bs : List UInt8}
    (h : bs.head?.all (fun c => !isQuoteByte c) = true) : scanToken b bs = scanPlain b bs := by
  unfold scanToken
  split
  · rename_i q rest
    have hq : isQuoteByte q = false := by simpa using h
    rw [if_neg (by rw [hq]; simp)]
  · rfl

theorem takeWhile_of_clean {p : UInt8 → Bool} {as bs : List UInt8} (ha : ∀ a ∈ as, p a = true)
    (hb : bs.head?.all (fun b => !p b) = true) : (as ++ bs).takeWhile p = as := by
  rw [List.takeWhile_append_of_pos ha]
  cases bs with
  | nil => simp
  | cons b bs =>
    have : p b = false := by simpa using hb
    simp [this]

theorem Clean.not_word {bs : List UInt8} (h : Clean bs) :
    bs.head?.all (fun b => !isWordByte b) = true := by
  cases bs with
  | nil => rfl
  | cons b bs =>
    simp only [Clean, List.head?_cons, Option.all_some, isCleanByte, Bool.and_eq_true] at h ⊢
    exact h.1.1

theorem Clean.not_quote {bs : List UInt8} (h : Clean bs) :
    bs.head?.all (fun b => !isQuoteByte b) = true := by
  cases bs with
  | nil => rfl
  | cons b bs =>
    simp only [Clean, List.head?_cons, Option.all_some, isCleanByte, Bool.and_eq_true] at h ⊢
    exact h.1.2

theorem not_quote_append {as bs : List UInt8} (ha : ∀ a ∈ as, isWordByte a = true)
    (hb : Clean bs) : (as ++ bs).head?.all (fun b => !isQuoteByte b) = true := by
  cases as with
  | nil => exact hb.not_quote
  | cons a as => simpa using not_isQuoteByte (ha a List.mem_cons_self)

theorem isWordChar_of_isWord {s : String} (h : isWord s = true) :
    ∀ c ∈ s.toList, isWordChar c = true := by
  unfold isWord at h
  cases hl : s.toList with
  | nil => rw [hl] at h; cases h
  | cons c cs =>
    simp only [hl, Bool.and_eq_true, List.all_eq_true] at h
    intro x hx
    rcases List.mem_cons.1 hx with rfl | hx
    · exact isWordChar_of_isWordStart h.1
    · exact h.2 x hx

theorem isWordByte_of_isWord {s : String} (h : isWord s = true) :
    ∀ b ∈ bytes s, isWordByte b = true := by
  have hw := isWordChar_of_isWord h
  rw [Text.bytes_of_isAscii (Text.isAscii_iff.2 fun c hc => ascii_of_isWordChar (hw c hc))]
  intro b hb
  obtain ⟨c, hc, rfl⟩ := List.mem_map.1 hb
  exact isWordByte_asciiByte (hw c hc)

/-- **A word lexes to one token** (`wordToken`). -/
theorem spelled_word {s : String} (h : isWord s = true) : Spelled s [wordToken s] := by
  intro tail kt hc ht
  have hs := h
  unfold isWord at h
  cases hl : s.toList with
  | nil => rw [hl] at h; cases h
  | cons c cs =>
    simp only [hl, Bool.and_eq_true, List.all_eq_true] at h
    obtain ⟨hstart, hrest⟩ := h
    have hascii : ∀ x ∈ s.toList, x.toNat < 128 :=
      fun x hx => ascii_of_isWordChar (isWordChar_of_isWord hs x hx)
    have hword : ∀ b ∈ cs.map asciiByte, isWordByte b = true := by
      intro b hb
      obtain ⟨x, hx, rfl⟩ := List.mem_map.1 hb
      exact isWordByte_asciiByte (hrest x hx)
    have hb : isWordByte (asciiByte c) = true :=
      isWordByte_asciiByte (isWordChar_of_isWordStart hstart)
    rw [Text.bytes_of_isAscii (Text.isAscii_iff.2 hascii), hl, List.map_cons, List.cons_append]
    have htext : byteText (asciiByte c :: cs.map asciiByte) = s := by
      have hmap : (s.toList.map asciiByte).map byteChar = s.toList := by
        rw [List.map_map]
        exact (List.map_congr_left fun x hx => byteChar_asciiByte (hascii x hx)).trans
          (List.map_id _)
      rw [byteText, ← List.map_cons, ← hl, hmap, String.ofList_toList]
    have hne : ∀ d : UInt8, isWordByte d = false → asciiByte c ≠ d := by
      intro d hd he
      rw [he, hd] at hb
      cases hb
    have hscan : scanToken (asciiByte c) (cs.map asciiByte ++ tail) =
        .ok (wordToken s) (cs.length + 1) := by
      rw [scanToken_eq_scanPlain (not_quote_append hword hc), scanPlain,
        if_neg (hne _ (by decide)), if_neg (hne _ (by decide)),
        if_pos (isWordStartByte_asciiByte hstart), takeWhile_of_clean hword hc.not_word]
      simp only [htext, List.length_cons, List.length_map]
    refine Lexes.token (fun _ => trivia_eq_none hb) hscan ?_
    have hd : (asciiByte c :: (cs.map asciiByte ++ tail)).drop (cs.length + 1) = tail := by
      simp
    rw [hd]
    exact ht

theorem spelled_identifier {s : String} (h : isIdentifier s = true) : Spelled s [.ident s] := by
  simp only [isIdentifier, Bool.and_eq_true, Option.isNone_iff_eq_none] at h
  have := spelled_word h.1
  rwa [wordToken, h.2] at this

theorem spelled_keyword {s : String} {k : Keyword} (hw : isWord s = true)
    (hk : Keyword.ofWord? s = some k) : Spelled s [.keyword k] := by
  have := spelled_word hw
  rwa [wordToken, hk] at this

/-! ## 5. Numerals -/

theorem dropSuffix_digits {cs : List Char} (h : ∀ c ∈ cs, c.isDigit = true) :
    dropSuffix cs = cs := by
  have hs : ∀ c : Char, c.isDigit = true → isSuffixChar c = false := by
    intro c hc
    cases hs : isSuffixChar c with
    | false => rfl
    | true =>
      simp only [isSuffixChar, Bool.or_eq_true, beq_iff_eq] at hs
      rcases hs with ((rfl | rfl) | rfl) | rfl <;> revert hc <;> decide
  rw [dropSuffix]
  have hd : cs.reverse.dropWhile isSuffixChar = cs.reverse := by
    cases hr : cs.reverse with
    | nil => rfl
    | cons c rest =>
      have hm : c ∈ cs := by
        rw [← List.mem_reverse, hr]
        exact List.mem_cons_self
      rw [List.dropWhile_cons_of_neg (by rw [hs c (h c hm)]; simp)]
  rw [hd, List.reverse_reverse]

theorem numberValue?_toDigits {n : Nat} (h : n < Text.size64) :
    numberValue? (Nat.toDigits 10 n) = some n := by
  have hd : ∀ c ∈ Nat.toDigits 10 n, c.isDigit = true :=
    fun c hc => Nat.isDigit_of_mem_toDigits (by decide) (by decide) hc
  have hv := valueBelow?_toDigits h
  rcases Nat.eq_zero_or_pos n with rfl | hpos
  · rw [Nat.toDigits_zero]
    decide
  · have hh := head?_toDigits hpos
    unfold numberValue?
    rw [dropSuffix_digits hd]
    split
    · rename_i he
      rw [he] at hh
      exact absurd rfl hh
    · rename_i he
      rw [he] at hh
      exact absurd rfl hh
    · rename_i he
      rw [he] at hh
      exact absurd rfl hh
    · exact hv

theorem isWordChar_of_isDigit {c : Char} (h : c.isDigit = true) : isWordChar c = true := by
  simp [isWordChar, Char.isAlphanum, h]

theorem byte_of_isDigit {c : Char} (h : c.isDigit = true) :
    isDigitByte (asciiByte c) = true ∧
      (isLetterByte (asciiByte c) || asciiByte c == asciiByte '_') = false ∧
      isWordByte (asciiByte c) = true := by
  refine forall_ascii (p := fun c => c.isDigit = true → isDigitByte (asciiByte c) = true ∧
    (isLetterByte (asciiByte c) || asciiByte c == asciiByte '_') = false ∧
    isWordByte (asciiByte c) = true) ?_ (ascii_of_isWordChar (isWordChar_of_isDigit h)) h
  decide

theorem Clean.not_alnum {bs : List UInt8} (h : Clean bs) :
    bs.head?.all (fun b => !isAlnumByte b) = true := by
  cases bs with
  | nil => rfl
  | cons b bs =>
    have hw : isWordByte b = false := by simpa using h.not_word
    have ha : isAlnumByte b = false := by
      rw [isWordByte, Bool.or_eq_false_iff] at hw
      exact hw.1
    simp [ha]

/-- A word of digits is scanned up to its end, and is the token of the word. -/
theorem scanToken_digits {c : Char} {cs : List Char} (hc : c.isDigit = true)
    (hcs : ∀ x ∈ cs, x.isDigit = true) {tail : List UInt8} (ht : Clean tail) {k : TokenKind}
    (hk : numberToken (asciiByte c :: cs.map asciiByte) = .ok k) :
    scanToken (asciiByte c) (cs.map asciiByte ++ tail) = .ok k (cs.length + 1) := by
  obtain ⟨hdigit, hletter, hword⟩ := byte_of_isDigit hc
  have halnum : ∀ b ∈ cs.map asciiByte, isAlnumByte b = true := by
    intro b hb
    obtain ⟨x, hx, rfl⟩ := List.mem_map.1 hb
    rw [isAlnumByte, (byte_of_isDigit (hcs x hx)).1, Bool.or_true]
  have hwords : ∀ b ∈ cs.map asciiByte, isWordByte b = true := by
    intro b hb
    rw [isWordByte, halnum b hb, Bool.true_or]
  have hne : ∀ d : UInt8, isWordByte d = false → asciiByte c ≠ d := by
    intro d hd he
    rw [he, hd] at hword
    cases hword
  rw [scanToken_eq_scanPlain (not_quote_append hwords ht), scanPlain,
    if_neg (hne _ (by decide)), if_neg (hne _ (by decide)), if_neg (by rw [hletter]; simp),
    if_pos hdigit, takeWhile_of_clean halnum ht.not_alnum]
  simp only [hk, List.length_cons, List.length_map, Scanned.ok]

/-- **A decimal number of 64 bits lexes to one token.** -/
theorem spelled_numeral (n : UInt64) : Spelled (toString n) [.intLit n] := by
  intro tail kt hc ht
  have hs : toString n = toString n.toNat := rfl
  have hl : (toString n).toList = Nat.toDigits 10 n.toNat := by
    rw [hs, toList_toString]
  have hd : ∀ c ∈ (toString n).toList, c.isDigit = true := by
    rw [hs]
    exact fun c hc => isDigit_of_mem_toString hc
  have hascii : ∀ c ∈ (toString n).toList, c.toNat < 128 :=
    fun c hc => ascii_of_isWordChar (isWordChar_of_isDigit (hd c hc))
  have hval : numberToken ((toString n).toList.map asciiByte) = .ok (.intLit n) := by
    have hlt : n.toNat < Text.size64 := n.toNat_lt
    have hmap : ((toString n).toList.map asciiByte).map byteChar = (toString n).toList := by
      rw [List.map_map]
      exact (List.map_congr_left fun x hx => byteChar_asciiByte (hascii x hx)).trans
        (List.map_id _)
    rw [numberToken, hmap, hl, numberValue?_toDigits hlt]
    simp
  rw [Text.bytes_of_isAscii (Text.isAscii_iff.2 hascii)]
  cases hcs : (toString n).toList with
  | nil =>
    rw [hl] at hcs
    exact absurd hcs Nat.toDigits_ne_nil
  | cons c cs =>
    rw [hcs] at hd hval
    obtain ⟨hc₀, hcs₀⟩ := List.forall_mem_cons.1 hd
    rw [List.map_cons, List.cons_append]
    refine Lexes.token (fun _ => trivia_eq_none (byte_of_isDigit hc₀).2.2)
      (scanToken_digits hc₀ hcs₀ hc hval) ?_
    have hdrop : (asciiByte c :: (cs.map asciiByte ++ tail)).drop (cs.length + 1) = tail := by
      simp
    rw [hdrop]
    exact ht

end TypeLedger
