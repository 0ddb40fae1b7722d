import Mathlib.Control.Monad.Basic
import TypeLedger.Proofs.Lexing.Strings

/-!
# Tokens printed and read again

* `TokenKind.printed`: the spellings of some tokens, with a space between two of them. A literal is
  spelt with an octal escape for each of its bytes.
* `TokenKind.Printable`: what a token that was scanned is like. Its identifiers are words that are
  not reserved, and its operators are those of the lexer.
* `lexes_spelling`: in front of a space, or of nothing, a printable token is read again. What stands
  directly behind it matters: a slash in front of a slash is a comment.
* `tokenize_printed`: the tokens of a text are printed as a text of the same tokens.
-/

namespace TypeLedger

open Text (bytes)

/-! ## 1. Spellings -/

/-- The plain spelling of a keyword. -/
def Keyword.spelling : Keyword → String
  | .storage .typeSynonym => "typedef"
  | .storage .external => "extern"
  | .storage .static => "static"
  | .storage .auto => "auto"
  | .storage .register => "register"
  | .inlineFunction => "inline"
  | .qualifier .constant => "const"
  | .qualifier .volatile => "volatile"
  | .qualifier .restrict => "restrict"
  | .builtin .void => "void"
  | .builtin .char => "char"
  | .builtin .short => "short"
  | .builtin .int => "int"
  | .builtin .long => "long"
  | .builtin .float => "float"
  | .builtin .double => "double"
  | .builtin .signed => "signed"
  | .builtin .unsigned => "unsigned"
  | .builtin .bool => "bool"
  | .builtin .wchar => "wchar_t"
  | .builtin .char16 => "char16_t"
  | .builtin .char32 => "char32_t"
  | .builtin .int128 => "__int128"
  | .complex => "_Complex"
  | .record .structKey => "struct"
  | .record .unionKey => "union"
  | .record .classKey => "class"
  | .enumeration => "enum"
  | .access .pub => "public"
  | .access .priv => "private"
  | .access .prot => "protected"
  | .virtualBase => "virtual"

/-- The escape of a byte with three octal digits. -/
def octalEscaped (b : UInt8) : List Char :=
  ['\\', (b.toNat / 64).digitChar, (b.toNat / 8 % 8).digitChar, (b.toNat % 8).digitChar]

namespace TokenKind

/-- The spelling of a token. -/
def spelling : TokenKind → String
  | keyword k => k.spelling
  | mark m => m.spelling
  | operator c => String.ofList [c]
  | intLit n => toString n
  | charLit b => String.ofList ('\'' :: octalEscaped b ++ ['\''])
  | stringLit bs => String.ofList ('"' :: bs.flatMap octalEscaped ++ ['"'])
  | ident name => name

/-- The spellings of some tokens, with a space between two of them. -/
def printed (ks : List TokenKind) : String :=
  " ".intercalate (ks.map spelling)

end TokenKind

/-! ## 2. What is printable -/

/-- The characters of operators that the grammar has no use for. -/
def operatorSymbols : List Char := ['.', '+', '-', '/', '%', '<', '>', '!', '~', '|', '?']

/-- The names of identifiers are words that are not reserved, and operators are known. -/
def TokenKind.Printable : TokenKind → Prop
  | .ident name => isIdentifier name = true
  | .operator c => c ∈ operatorSymbols
  | _ => True

theorem mem_operatorSymbols {b : UInt8} {c : Char} (h : byteToken? b = some (.operator c)) :
    c ∈ operatorSymbols := by
  unfold byteToken? at h
  split at h <;> cases h <;> decide

theorem TokenKind.Scans.printable {k : TokenKind} (h : k.Scans) : k.Printable := by
  cases k with
  | ident name => exact h.isIdentifier rfl
  | operator c =>
    generalize hk : TokenKind.operator c = k at h
    cases h with
    | string | char | number | mark => cases hk
    | word hw =>
      unfold wordToken at hk
      split at hk <;> cases hk
    | byte hb =>
      subst hk
      exact mem_operatorSymbols hb
  | _ => trivial

/-! ## 3. Literals -/

/-- Three octal digits are enough for a byte, and no fourth is read. -/
theorem octalEscaped_spec (b : UInt8) : ∃ digits : List UInt8,
    (octalEscaped b).map asciiByte = asciiByte '\\' :: digits ∧ digits.length = 3 ∧
      byteOf 8 digits = b ∧ ∀ rest, (Escape.octal digits).Fits rest := by
  have hall : ((octalEscaped b).map asciiByte).tail.all isOctalByte = true ∧
      octalEscape ((octalEscaped b).map asciiByte).tail = b := by
    refine forall_byte (p := fun b =>
      ((octalEscaped b).map asciiByte).tail.all isOctalByte = true ∧
        octalEscape ((octalEscaped b).map asciiByte).tail = b) ?_ b
    decide +kernel
  rw [List.all_eq_true, isOctalByte_eq] at hall
  obtain ⟨hdigits, hvalue⟩ := hall
  rw [octalEscape_eq hdigits] at hvalue
  exact ⟨_, rfl, rfl, hvalue, fun rest =>
    ⟨List.cons_ne_nil _ _, Nat.le_refl 3, hdigits, fun h => absurd h (Nat.lt_irrefl 3)⟩⟩

theorem ascii_octalEscaped (b : UInt8) : ∀ c ∈ octalEscaped b, c.toNat < 128 := by
  have hall : (octalEscaped b).all (fun c => c.toNat < 128) = true := by
    refine forall_byte (p := fun b => (octalEscaped b).all (fun c => c.toNat < 128) = true) ?_ b
    decide +kernel
  intro c hc
  exact of_decide_eq_true (List.all_eq_true.1 hall c hc)

/-- The escape of a byte is an item of a string. -/
theorem scanString_octalEscaped (b : UInt8) {rest v : List UInt8} {n : Nat}
    (h : scanString rest = .ok v n) :
    scanString ((octalEscaped b).map asciiByte ++ rest) = .ok (b :: v) (4 + n) := by
  obtain ⟨digits, hmap, hlength, hvalue, hfits⟩ := octalEscaped_spec b
  have hitem := scanString_item (i := .escape (.octal digits)) (hfits rest) h
  rw [StringItem.bytes, Escape.bytes, StringItem.value, Escape.value, hvalue, List.length_cons,
    hlength] at hitem
  rw [hmap]
  exact hitem

/-- A string that is spelt with escapes is read to its end. -/
theorem scanString_spelt (bs rest : List UInt8) :
    scanString ((bs.flatMap octalEscaped).map asciiByte ++ asciiByte '"' :: rest) =
      .ok bs (((bs.flatMap octalEscaped).map asciiByte).length + 1) := by
  induction bs with
  | nil =>
    unfold scanString
    rfl
  | cons b bs ih =>
    have hlen : ((octalEscaped b).map asciiByte).length = 4 := rfl
    rw [List.flatMap_cons, List.map_append, List.append_assoc, scanString_octalEscaped b ih,
      List.length_append, hlen, Nat.add_assoc]

theorem scanChar_spelt (b : UInt8) (rest : List UInt8) :
    scanChar ((octalEscaped b).map asciiByte ++ asciiByte '\'' :: rest) = .ok b 5 := by
  obtain ⟨digits, hmap, hlength, hvalue, hfits⟩ := octalEscaped_spec b
  have he := (hfits (asciiByte '\'' :: rest)).scanEscape
  rw [Escape.bytes, Escape.value, hvalue, hlength] at he
  rw [hmap, List.cons_append, scanChar, if_neg (by decide), if_neg (by decide), if_pos rfl, he]
  simp only [Scanned.ok]
  rw [List.drop_left' hlength]
  rfl

/-- A literal is read whatever stands behind its closing quote. -/
theorem lexes_literal {q : UInt8} {X tail : List UInt8} {k : TokenKind} {ks : List TokenKind}
    (hq : isQuoteByte q = true)
    (hs : scanPlain q (X ++ q :: tail) = .ok k (1 + (X.length + 1))) (h : Lexes tail ks) :
    Lexes (q :: (X ++ q :: tail)) (k :: ks) := by
  have hquote : q = asciiByte '"' ∨ q = asciiByte '\'' := by
    simpa [isQuoteByte] using hq
  have htrivia : ∀ atLineStart, trivia atLineStart q (X ++ q :: tail) = none := by
    rcases hquote with rfl | rfl <;> exact fun _ => rfl
  have hL : q ≠ asciiByte 'L' := by
    rcases hquote with rfl | rfl <;> decide
  have hscan : scanToken q (X ++ q :: tail) = .ok k (1 + (X.length + 1)) := by
    rw [← hs]
    unfold scanToken
    split
    · exact if_neg fun hb => hL hb.1
    · rfl
  refine Lexes.token htrivia hscan ?_
  have hdrop : (q :: (X ++ q :: tail)).drop (1 + (X.length + 1)) = tail := by
    rw [Nat.add_comm 1, List.drop_succ_cons, List.drop_length_add_append]
    rfl
  rw [hdrop]
  exact h

theorem bytes_quoted {q : Char} {cs : List Char} (hq : q.toNat < 128)
    (h : ∀ c ∈ cs, c.toNat < 128) (tail : List UInt8) :
    bytes (String.ofList (q :: cs ++ [q])) ++ tail =
      asciiByte q :: (cs.map asciiByte ++ asciiByte q :: tail) := by
  have hascii : ∀ c ∈ q :: cs ++ [q], c.toNat < 128 := by
    intro c hc
    simp only [List.cons_append, List.mem_cons, List.mem_append, List.not_mem_nil,
      or_false] at hc
    rcases hc with rfl | hc | rfl
    · exact hq
    · exact h c hc
    · exact hq
  rw [Text.bytes_ofList hascii]
  simp

theorem lexes_string (bs : List UInt8) {tail : List UInt8} {ks : List TokenKind}
    (h : Lexes tail ks) :
    Lexes (bytes (TokenKind.stringLit bs).spelling ++ tail) (.stringLit bs :: ks) := by
  have hascii : ∀ c ∈ bs.flatMap octalEscaped, c.toNat < 128 := by
    intro c hc
    obtain ⟨b, -, hc⟩ := List.mem_flatMap.1 hc
    exact ascii_octalEscaped b c hc
  rw [TokenKind.spelling, bytes_quoted (by decide) hascii]
  refine lexes_literal (by decide) ?_ h
  rw [scanPlain, if_pos rfl, scanString_spelt]
  rfl

theorem lexes_char (b : UInt8) {tail : List UInt8} {ks : List TokenKind} (h : Lexes tail ks) :
    Lexes (bytes (TokenKind.charLit b).spelling ++ tail) (.charLit b :: ks) := by
  rw [TokenKind.spelling, bytes_quoted (by decide) (ascii_octalEscaped b)]
  refine lexes_literal (by decide) ?_ h
  rw [scanPlain, if_neg (by decide), if_pos rfl, scanChar_spelt]
  rfl

/-! ## 4. Tokens with a space behind them -/

/-- Nothing, or bytes that begin with a space. -/
def Spaced (bs : List UInt8) : Prop := bs = [] ∨ ∃ rest, bs = asciiByte ' ' :: rest

theorem Spaced.clean {bs : List UInt8} (h : Spaced bs) : Clean bs := by
  rcases h with rfl | ⟨rest, rfl⟩
  · exact clean_nil
  · exact (by decide : isCleanByte (asciiByte ' ') = true)

theorem ascii_of_mem_operatorSymbols {c : Char} (hc : c ∈ operatorSymbols) : c.toNat < 128 := by
  have hall : operatorSymbols.all (fun c => c.toNat < 128) = true := by decide
  exact of_decide_eq_true (List.all_eq_true.1 hall c hc)

/-- An operator with a space behind it begins no comment and no ellipsis. -/
theorem lexes_operator {c : Char} (hc : c ∈ operatorSymbols) {tail : List UInt8}
    {ks : List TokenKind} (ht : Spaced tail) (h : Lexes tail ks) :
    Lexes (bytes (TokenKind.operator c).spelling ++ tail) (.operator c :: ks) := by
  have hbytes : bytes (TokenKind.operator c).spelling = [asciiByte c] :=
    Text.bytes_ofList (List.forall_mem_singleton.2 (ascii_of_mem_operatorSymbols hc))
  have hread : (∀ atLineStart, trivia atLineStart (asciiByte c) tail = none) ∧
      scanToken (asciiByte c) tail = .ok (.operator c) 1 := by
    simp only [operatorSymbols, List.mem_cons, List.not_mem_nil, or_false] at hc
    rcases ht with rfl | ⟨rest, rfl⟩ <;>
      rcases hc with rfl | rfl | rfl | rfl | rfl | rfl | rfl | rfl | rfl | rfl | rfl <;>
      exact ⟨fun _ => rfl, rfl⟩
  rw [hbytes]
  exact Lexes.token hread.1 hread.2 h

theorem ofWord?_spelling (k : Keyword) : Keyword.ofWord? k.spelling = some k := by
  rcases k with (_ | _) | _ | (_ | _) | (_ | _) | _ | (_ | _) | _ | (_ | _) | _ <;> decide

theorem isWord_spelling (k : Keyword) : isWord k.spelling = true := by
  rcases k with (_ | _) | _ | (_ | _) | (_ | _) | _ | (_ | _) | _ | (_ | _) | _ <;> decide

theorem lexes_spelling {k : TokenKind} (hk : k.Printable) {tail : List UInt8}
    {ks : List TokenKind} (ht : Spaced tail) (h : Lexes tail ks) :
    Lexes (bytes k.spelling ++ tail) (k :: ks) := by
  cases k with
  | keyword k => exact spelled_keyword (isWord_spelling k) (ofWord?_spelling k) tail ks ht.clean h
  | mark m => exact spelled_mark m tail ks ht.clean h
  | operator c => exact lexes_operator hk ht h
  | intLit n => exact spelled_numeral n tail ks ht.clean h
  | charLit b => exact lexes_char b h
  | stringLit bs => exact lexes_string bs h
  | ident name => exact spelled_identifier hk tail ks ht.clean h

/-- **`Printable` tokens are read from what they are printed as.** -/
theorem lexes_printed {ks : List TokenKind} (h : ∀ k ∈ ks, k.Printable) :
    Lexes (bytes (TokenKind.printed ks)) ks := by
  induction ks with
  | nil =>
    rw [TokenKind.printed, List.map_nil, String.intercalate_nil, bytes_empty]
    exact lexes_nil
  | cons k ks ih =>
    obtain ⟨hk, hks⟩ := List.forall_mem_cons.1 h
    cases ks with
    | nil =>
      have := lexes_spelling hk (.inl rfl) lexes_nil
      rwa [List.append_nil] at this
    | cons k' ks =>
      have hstep : TokenKind.printed (k :: k' :: ks) =
          k.spelling ++ (" " ++ TokenKind.printed (k' :: ks)) := by
        simp only [TokenKind.printed, List.map_cons, String.intercalate_cons_cons,
          String.append_assoc]
      rw [hstep, Text.bytes_append, Text.bytes_append, bytes_space]
      exact lexes_spelling hk (.inr ⟨_, rfl⟩) (Lexes.blank (by decide) (ih hks))

/-- **What the tokens of a text are printed as** (`TokenKind.printed`) is a text of the same
tokens. -/
theorem tokenize_printed {bs : List UInt8} {ts : List Token} {stop : Location}
    (h : tokenize bs = .ok (ts, stop)) :
    ∃ ts' stop', tokenize (bytes (TokenKind.printed (ts.map Token.kind))) = .ok (ts', stop') ∧
      ts'.map Token.kind = ts.map Token.kind := by
  refine kinds_of_lexes (lexes_printed fun k hk => ?_)
  obtain ⟨t, ht, rfl⟩ := List.mem_map.1 hk
  exact (scans_tokenize h t ht).printable

/-- A text with aliases, escapes and a prefix, all of which are printed in another form. -/
def aliasSource : String := "__inline x[0x1f] = L\"a\\\"\" /'\\n' ...;"

theorem tokenize_printed_alias :
    ∃ ts stop, tokenize (bytes aliasSource) = .ok (ts, stop) ∧
      TokenKind.printed (ts.map Token.kind) =
        "inline x [ 31 ] = \"\\141\\042\" / '\\012' ... ;" ∧
      ∃ ts' stop',
        tokenize (bytes (TokenKind.printed (ts.map Token.kind))) = .ok (ts', stop') ∧
          ts'.map Token.kind = ts.map Token.kind := by
  have htokens : tokenize (bytes aliasSource) = .ok
      ([⟨.keyword .inlineFunction, ⟨1, 1⟩⟩, ⟨.ident "x", ⟨1, 10⟩⟩,
        ⟨.mark .bracketOpen, ⟨1, 11⟩⟩, ⟨.intLit 31, ⟨1, 12⟩⟩, ⟨.mark .bracketClose, ⟨1, 16⟩⟩,
        ⟨.mark .equals, ⟨1, 18⟩⟩, ⟨.stringLit [97, 34], ⟨1, 20⟩⟩, ⟨.operator '/', ⟨1, 27⟩⟩,
        ⟨.charLit 10, ⟨1, 28⟩⟩, ⟨.mark .ellipsis, ⟨1, 33⟩⟩, ⟨.mark .semicolon, ⟨1, 36⟩⟩],
        ⟨1, 37⟩) := by
    decide +kernel
  exact ⟨_, _, htokens, by decide +kernel, tokenize_printed htokens⟩

end TypeLedger
