import TypeLedger.Source.Fault
import TypeLedger.Text.Numeral

/-!
# Reading one token from bytes

* The functions here know nothing of locations: each reads the front of a byte list and answers a
  `Scanned`, the outcome and the number of bytes read. A failed scan says where it stopped.
* `trivia` recognises what stands between tokens: blanks, comments and directives.
* `scanToken` reads one token; the letter L in front of a literal's quote is dropped.
-/

namespace TypeLedger

/-- The outcome of a scan and the number of bytes it has read. -/
structure Scanned (α : Type) where
  outcome : Except LexFault α
  width : Nat

namespace Scanned

variable {α β : Type}

def ok (a : α) (width : Nat) : Scanned α := ⟨.ok a, width⟩

def fail (f : LexFault) (width : Nat) : Scanned α := ⟨.error f, width⟩

/-- The same scan, begun `n` bytes earlier, with its value put through `f`. -/
def behind (n : Nat) (f : α → β) (s : Scanned α) : Scanned β :=
  ⟨s.outcome.map f, n + s.width⟩

end Scanned

/-! ## 1. Classes of bytes -/

/-- The byte of an ASCII character. -/
def asciiByte (c : Char) : UInt8 := UInt8.ofNat c.toNat

def isSpaceByte (b : UInt8) : Bool :=
  b == asciiByte ' ' || b == asciiByte '\t' || b == asciiByte '\r' || b == lineFeed || b == 0x0c

def isDigitByte (b : UInt8) : Bool :=
  asciiByte '0' ≤ b && b ≤ asciiByte '9'

def isLetterByte (b : UInt8) : Bool :=
  (asciiByte 'a' ≤ b && b ≤ asciiByte 'z') || (asciiByte 'A' ≤ b && b ≤ asciiByte 'Z')

def isAlnumByte (b : UInt8) : Bool :=
  isLetterByte b || isDigitByte b

/-- A byte of an identifier behind its first. -/
def isWordByte (b : UInt8) : Bool :=
  isAlnumByte b || b == asciiByte '_'

def isOctalByte (b : UInt8) : Bool :=
  asciiByte '0' ≤ b && b ≤ asciiByte '7'

/-- The value of a hexadecimal digit. -/
def hexByte? (b : UInt8) : Option UInt8 :=
  (Text.digit? 16 (byteChar b)).map UInt8.ofNat

/-- The text that shows some bytes. -/
def byteText (bs : List UInt8) : String :=
  String.ofList (bs.map byteChar)

/-! ## 2. Between tokens -/

/-- The number of bytes in front of the next line feed. -/
def lineWidth (bs : List UInt8) : Nat :=
  (bs.takeWhile (· != lineFeed)).length

/-- The number of bytes up to and with the mark that ends a block comment. -/
def commentWidth : List UInt8 → Scanned Unit
  | [] => .fail .unterminatedComment 0
  | b :: bs =>
    if b = asciiByte '*' ∧ bs.head? = some (asciiByte '/') then .ok () 2
    else (commentWidth bs).behind 1 id

/-- The number of bytes of a directive, up to the line feed that ends it. A backslash directly in
front of a line feed continues the directive on the next line. -/
def directiveWidth : List UInt8 → Nat
  | [] => 0
  | [b] => if b = lineFeed then 0 else 1
  | b :: c :: bs =>
    if b = asciiByte '\\' ∧ c = lineFeed then 2 + directiveWidth bs
    else if b = lineFeed then 0
    else 1 + directiveWidth (c :: bs)

/-- What stands at the byte `b`, with `bs` behind it, if it is no token: the number of bytes of
`bs` that belong to it, or the fault of an unterminated comment. -/
def trivia (atLineStart : Bool) (b : UInt8) (bs : List UInt8) : Option (Scanned Unit) :=
  if isSpaceByte b then some (.ok () 0)
  else if b = asciiByte '/' then
    match bs with
    | c :: cs =>
      if c = asciiByte '/' then some (.ok () (1 + lineWidth cs))
      else if c = asciiByte '*' then some ((commentWidth cs).behind 1 id)
      else none
    | [] => none
  else if b = asciiByte '#' ∧ atLineStart then some (.ok () (directiveWidth bs))
  else none

/-! ## 3. Literals -/

/-- The digits of a hexadecimal escape: their value modulo 256. -/
def hexEscape (digits : List UInt8) : UInt8 :=
  digits.foldl (fun v d => v * 16 + (hexByte? d).getD 0) 0

/-- The digits of an octal escape: their value modulo 256. -/
def octalEscape (digits : List UInt8) : UInt8 :=
  digits.foldl (fun v d => v * 8 + (d - asciiByte '0')) 0

/-- The byte that a one-letter escape stands for. -/
def letterEscape? (b : UInt8) : Option UInt8 :=
  if b = asciiByte 'n' then some 0x0a
  else if b = asciiByte 't' then some 0x09
  else if b = asciiByte 'r' then some 0x0d
  else if b = asciiByte 'a' then some 0x07
  else if b = asciiByte 'b' then some 0x08
  else if b = asciiByte 'f' then some 0x0c
  else if b = asciiByte 'v' then some 0x0b
  else if b = asciiByte '\\' || b = asciiByte '\'' || b = asciiByte '"' || b = asciiByte '?' then
    some b
  else none

/-- Reads an escape, from behind its backslash. A hexadecimal escape takes every digit there is,
an octal one at most three. -/
def scanEscape : List UInt8 → Scanned UInt8
  | [] => .fail .unterminatedString 0
  | b :: bs =>
    match letterEscape? b with
    | some v => .ok v 1
    | none =>
      if b = asciiByte 'x' then
        let digits := bs.takeWhile fun d => (hexByte? d).isSome
        if digits.isEmpty then .fail (.invalidEscape b) 1
        else .ok (hexEscape digits) (1 + digits.length)
      else if isOctalByte b then
        let digits := b :: (bs.take 2).takeWhile isOctalByte
        .ok (octalEscape digits) digits.length
      else .fail (.invalidEscape b) 1

/-- Reads the bytes of a string literal, from behind its opening quote to its closing one. A
backslash in front of a line feed joins the lines. -/
def scanString : List UInt8 → Scanned (List UInt8)
  | [] => .fail .unterminatedString 0
  | b :: bs =>
    if b = asciiByte '"' then .ok [] 1
    else if b = lineFeed then .fail .unterminatedString 0
    else if b = asciiByte '\\' then
      if bs.head? = some lineFeed then (scanString (bs.drop 1)).behind 2 id
      else
        let e := scanEscape bs
        match e.outcome with
        | .error f => .fail f (1 + e.width)
        | .ok v => (scanString (bs.drop e.width)).behind (1 + e.width) (v :: ·)
    else (scanString bs).behind 1 (b :: ·)
termination_by bs => bs.length
decreasing_by all_goals simp only [List.length_drop, List.length_cons]; omega

/-- Reads the quote that ends a character literal of value `v`. -/
def closeChar (v : UInt8) (bs : List UInt8) : Scanned UInt8 :=
  if bs.head? = some (asciiByte '\'') then .ok v 1 else .fail .unterminatedChar 0

/-- Reads a character literal, from behind its opening quote. -/
def scanChar : List UInt8 → Scanned UInt8
  | [] => .fail .unterminatedChar 0
  | b :: bs =>
    if b = asciiByte '\'' then .fail .emptyChar 0
    else if b = lineFeed then .fail .unterminatedChar 0
    else if b = asciiByte '\\' then
      let e := scanEscape bs
      match e.outcome with
      | .error f => .fail f (1 + e.width)
      | .ok v => (closeChar v (bs.drop e.width)).behind (1 + e.width) id
    else (closeChar b bs).behind 1 id

/-- A letter that may stand behind the digits of a number. -/
def isSuffixChar (c : Char) : Bool :=
  c == 'u' || c == 'U' || c == 'l' || c == 'L'

/-- A word without the suffix letters at its end. -/
def dropSuffix (word : List Char) : List Char :=
  (word.reverse.dropWhile isSuffixChar).reverse

/-- The number below 2^64 that a word stands for: hexadecimal behind `0x`, octal behind a zero,
else decimal. -/
def numberValue? (word : List Char) : Option Nat :=
  match dropSuffix word with
  | '0' :: 'x' :: digits => Text.valueBelow? 16 Text.size64 digits
  | '0' :: 'X' :: digits => Text.valueBelow? 16 Text.size64 digits
  | '0' :: d :: digits => Text.valueBelow? 8 Text.size64 (d :: digits)
  | digits => Text.valueBelow? 10 Text.size64 digits

/-- The token of a word that starts with a digit. -/
def numberToken (word : List UInt8) : Except LexFault TokenKind :=
  match numberValue? (word.map byteChar) with
  | some n => .ok (.intLit (UInt64.ofNat n))
  | none => .error (.invalidNumber (byteText word))

/-! ## 4. Tokens -/

/-- The token of a word that starts with a letter or an underscore. -/
def wordToken (word : String) : TokenKind :=
  match Keyword.ofWord? word with
  | some k => .keyword k
  | none => .ident word

/-- The marks and operators of a single byte. -/
def byteToken? (b : UInt8) : Option TokenKind :=
  match byteChar b with
  | '(' => some (.mark .parenOpen)
  | ')' => some (.mark .parenClose)
  | '[' => some (.mark .bracketOpen)
  | ']' => some (.mark .bracketClose)
  | '\x7b' => some (.mark .braceOpen)
  | '\x7d' => some (.mark .braceClose)
  | '*' => some (.mark .star)
  | '&' => some (.mark .amp)
  | '^' => some (.mark .caret)
  | ',' => some (.mark .comma)
  | ';' => some (.mark .semicolon)
  | ':' => some (.mark .colon)
  | '=' => some (.mark .equals)
  | '.' => some (.operator '.')
  | '+' => some (.operator '+')
  | '-' => some (.operator '-')
  | '/' => some (.operator '/')
  | '%' => some (.operator '%')
  | '<' => some (.operator '<')
  | '>' => some (.operator '>')
  | '!' => some (.operator '!')
  | '~' => some (.operator '~')
  | '|' => some (.operator '|')
  | '?' => some (.operator '?')
  | _ => none

/-- Reads the mark or operator at the byte `b`, the longest there is. -/
def scanMark (b : UInt8) (bs : List UInt8) : Scanned TokenKind :=
  if b = asciiByte '&' ∧ bs.head? = some (asciiByte '&') then .ok (.mark .ampAmp) 2
  else if b = asciiByte '.' ∧ bs.take 2 = [asciiByte '.', asciiByte '.'] then
    .ok (.mark .ellipsis) 3
  else
    match byteToken? b with
    | some k => .ok k 1
    | none => .fail (.invalidByte b) 1

/-- Reads the token at the byte `b`, with `bs` behind it, where no letter L is to be dropped. -/
def scanPlain (b : UInt8) (bs : List UInt8) : Scanned TokenKind :=
  if b = asciiByte '"' then (scanString bs).behind 1 .stringLit
  else if b = asciiByte '\'' then (scanChar bs).behind 1 .charLit
  else if isLetterByte b || b == asciiByte '_' then
    let word := b :: bs.takeWhile isWordByte
    .ok (wordToken (byteText word)) word.length
  else if isDigitByte b then
    let word := b :: bs.takeWhile isAlnumByte
    ⟨numberToken word, word.length⟩
  else scanMark b bs

/-- A quote that opens a literal. -/
def isQuoteByte (b : UInt8) : Bool :=
  b == asciiByte '"' || b == asciiByte '\''

/-- Reads the token at the byte `b`, with `bs` behind it. -/
def scanToken (b : UInt8) (bs : List UInt8) : Scanned TokenKind :=
  match bs with
  | q :: rest =>
    if b = asciiByte 'L' ∧ isQuoteByte q then (scanPlain q rest).behind 1 id
    else scanPlain b bs
  | [] => scanPlain b bs

/-! ## 5. Every token has a byte -/

theorem width_scanMark_pos (b : UInt8) (bs : List UInt8) : 0 < (scanMark b bs).width := by
  unfold scanMark
  split
  · simp [Scanned.ok]
  · split
    · simp [Scanned.ok]
    · split <;> simp [Scanned.ok, Scanned.fail]

theorem width_scanPlain_pos (b : UInt8) (bs : List UInt8) : 0 < (scanPlain b bs).width := by
  unfold scanPlain
  split
  · simp only [Scanned.behind]; omega
  · split
    · simp only [Scanned.behind]; omega
    · split
      · simp [Scanned.ok]
      · split
        · simp
        · exact width_scanMark_pos b bs

/-- **A token takes at least one byte,** so that reading on comes to an end. -/
theorem width_scanToken_pos (b : UInt8) (bs : List UInt8) : 0 < (scanToken b bs).width := by
  unfold scanToken
  split
  · split
    · simp only [Scanned.behind]; omega
    · exact width_scanPlain_pos _ _
  · exact width_scanPlain_pos _ _

end TypeLedger
