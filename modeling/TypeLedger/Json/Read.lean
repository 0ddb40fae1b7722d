import TypeLedger.Json
import TypeLedger.Text.Numeral

/-!
# Reading JSON

* Every reader answers what it has read and the characters left, with a proof that they have become
  fewer: `Read cs α`.
* An escape may name half of a surrogate pair. Two halves side by side make a character; a half by
  itself makes a string that is no text.
* `Json.parse?` reads a whole text, blanks around the value allowed.
-/

namespace TypeLedger.Json

/-- A value read from the front of `cs`, and the characters left. -/
structure Read (cs : List Char) (α : Type) where
  value : α
  rest : List Char
  shorter : rest.length < cs.length

/-! ## 1. Strings -/

/-- What a string is written with: a character, or half of a surrogate pair. -/
inductive Piece
  | char (c : Char)
  | half (unit : Nat)

/-- The character that a one-letter escape stands for. -/
def letter? : Char → Option Char
  | '"' => some '"'
  | '\\' => some '\\'
  | '/' => some '/'
  | 'b' => some '\x08'
  | 'f' => some '\x0c'
  | 'n' => some '\n'
  | 'r' => some '\r'
  | 't' => some '\t'
  | _ => none

/-- The piece with a UTF-16 unit. -/
def Piece.ofUnit (n : Nat) : Piece :=
  if 0xd800 ≤ n ∧ n ≤ 0xdfff then .half n else .char (Char.ofNat n)

/-- The pieces of a string, from behind its opening quote, and what is left behind its closing
one. -/
def readPieces : List Char → Option (List Piece × List Char)
  | [] => none
  | '"' :: cs => some ([], cs)
  | '\\' :: 'u' :: a :: b :: c :: d :: cs => do
    let n ← Text.value? 16 [a, b, c, d]
    let (ps, rest) ← readPieces cs
    return (.ofUnit n :: ps, rest)
  | ['\\'] => none
  | '\\' :: e :: cs => do
    let c ← letter? e
    let (ps, rest) ← readPieces cs
    return (.char c :: ps, rest)
  | c :: cs =>
    if c.toNat < 0x20 then none
    else do
      let (ps, rest) ← readPieces cs
      return (.char c :: ps, rest)

theorem length_readPieces {cs : List Char} {ps : List Piece} {rest : List Char}
    (h : readPieces cs = some (ps, rest)) : rest.length < cs.length := by
  fun_induction readPieces cs generalizing ps with
  | case1 => simp at h
  | case2 cs => simp at h; simp [← h.2]
  | case3 a b c d cs ih =>
    simp only [Option.pure_def, Option.bind_eq_bind, Option.bind_eq_some_iff, Prod.exists,
      Option.some.injEq, Prod.mk.injEq] at h
    obtain ⟨n, -, ps', rest', h', -, rfl⟩ := h
    have := ih h'
    simp only [List.length_cons]; omega
  | case4 => simp at h
  | case5 e cs _ ih =>
    simp only [Option.pure_def, Option.bind_eq_bind, Option.bind_eq_some_iff, Prod.exists,
      Option.some.injEq, Prod.mk.injEq] at h
    obtain ⟨n, -, ps', rest', h', -, rfl⟩ := h
    have := ih h'
    simp only [List.length_cons]; omega
  | case6 => simp at h
  | case7 c cs _ _ _ _ _ ih =>
    simp only [Option.pure_def, Option.bind_eq_bind, Option.bind_eq_some_iff, Prod.exists,
      Option.some.injEq, Prod.mk.injEq] at h
    obtain ⟨ps', rest', h', -, rfl⟩ := h
    have := ih h'
    simp only [List.length_cons]; omega

/-- The characters that pieces make, `none` if a half stands without the other one. -/
def assemble : List Piece → Option (List Char)
  | [] => some []
  | .char c :: ps => (assemble ps).map (c :: ·)
  | .half hi :: .half lo :: ps =>
    if hi < 0xdc00 ∧ 0xdc00 ≤ lo then
      (assemble ps).map (Char.ofNat (0x10000 + (hi - 0xd800) * 0x400 + (lo - 0xdc00)) :: ·)
    else none
  | .half _ :: _ => none

/-- Reads a string from its opening quote on. -/
def readString (cs : List Char) : Option (Read cs Text) :=
  match cs with
  | '"' :: inner =>
    match h : readPieces inner with
    | some (ps, rest) =>
      some ⟨(assemble ps).map String.ofList, rest, by
        have := length_readPieces h; simp only [List.length_cons]; omega⟩
    | none => none
  | _ => none

/-! ## 2. Numbers -/

def isDigit (c : Char) : Bool := '0' ≤ c && c ≤ '9'

/-- What is left behind one or more digits. -/
def digits? (cs : List Char) : Option (List Char) :=
  match cs with
  | c :: rest => if isDigit c then some (rest.dropWhile isDigit) else none
  | [] => none

/-- What is left behind an integer without a sign. A zero is followed by no digit. -/
def integer? (cs : List Char) : Option (List Char) :=
  match cs with
  | '0' :: rest => if rest.head?.any isDigit then none else some rest
  | _ => digits? cs

/-- What is left behind a fraction, if there is one. -/
def fraction? (cs : List Char) : Option (List Char) :=
  match cs with
  | '.' :: rest => digits? rest
  | _ => some cs

/-- What is left behind a sign, if there is one. -/
def dropSign : List Char → List Char
  | '+' :: rest => rest
  | '-' :: rest => rest
  | cs => cs

/-- What is left behind an exponent, if there is one. -/
def exponent? (cs : List Char) : Option (List Char) :=
  match cs with
  | c :: rest => if c = 'e' ∨ c = 'E' then digits? (dropSign rest) else some cs
  | [] => some []

/-- What is left behind a number. -/
def number? (cs : List Char) : Option (List Char) :=
  let unsigned := if cs.head? = some '-' then cs.drop 1 else cs
  ((integer? unsigned).bind fraction?).bind exponent?

theorem length_dropWhile_le (p : Char → Bool) (cs : List Char) :
    (cs.dropWhile p).length ≤ cs.length :=
  (List.dropWhile_suffix p).length_le

theorem length_digits? {cs rest : List Char} (h : digits? cs = some rest) :
    rest.length < cs.length := by
  unfold digits? at h
  split at h
  · rename_i c r
    split at h
    · cases h
      have := length_dropWhile_le isDigit r
      simp only [List.length_cons]; omega
    · simp at h
  · simp at h

theorem length_integer? {cs rest : List Char} (h : integer? cs = some rest) :
    rest.length < cs.length := by
  unfold integer? at h
  split at h
  · split at h
    · simp at h
    · cases h; simp
  · exact length_digits? h

theorem length_fraction? {cs rest : List Char} (h : fraction? cs = some rest) :
    rest.length ≤ cs.length := by
  unfold fraction? at h
  split at h
  · have := length_digits? h
    simp only [List.length_cons]; omega
  · cases h; simp

theorem length_dropSign (cs : List Char) : (dropSign cs).length ≤ cs.length := by
  unfold dropSign
  split <;> simp

theorem length_exponent? {cs rest : List Char} (h : exponent? cs = some rest) :
    rest.length ≤ cs.length := by
  unfold exponent? at h
  split at h
  · rename_i c r
    split at h
    · have := length_digits? h
      have := length_dropSign r
      simp only [List.length_cons]; omega
    · cases h; simp
  · cases h; simp

theorem length_number? {cs rest : List Char} (h : number? cs = some rest) :
    rest.length < cs.length := by
  simp only [number?, Option.bind_eq_some_iff] at h
  obtain ⟨b, ⟨a, h₁, h₂⟩, h₃⟩ := h
  have := length_integer? h₁
  have := length_fraction? h₂
  have := length_exponent? h₃
  split at h₁
  · simp_all only [↓reduceIte, List.length_drop]; omega
  · simp_all only [↓reduceIte]; omega

/-- Reads a number. -/
def readNumber (cs : List Char) : Option (Read cs Json) :=
  match h : number? cs with
  | some rest => some ⟨.number, rest, length_number? h⟩
  | none => none

/-! ## 3. Blanks -/

/-- The blanks of JSON. -/
def isSpace (c : Char) : Bool := c == ' ' || c == '\n' || c == '\t' || c == '\r'

/-- Drops the blanks at the front. -/
def skipSpace (cs : List Char) : List Char := cs.dropWhile isSpace

theorem length_skipSpace (cs : List Char) : (skipSpace cs).length ≤ cs.length :=
  length_dropWhile_le _ _

/-- Reads with `f` behind the blanks at the front. -/
def spaced {α : Type} (f : (cs : List Char) → Option (Read cs α)) (cs : List Char) :
    Option (Read cs α) :=
  (f (skipSpace cs)).map fun r =>
    ⟨r.value, r.rest, Nat.lt_of_lt_of_le r.shorter (length_skipSpace cs)⟩

/-- Takes the character `c`. -/
def take? (c : Char) (cs : List Char) : Option (Read cs Unit) :=
  match cs with
  | d :: rest => if d = c then some ⟨(), rest, by simp⟩ else none
  | [] => none

/-! ## 4. Values -/

/-- Reads a word letter by letter. -/
def readWord (word : List Char) (j : Json) (cs : List Char) : Option (Read cs Json) :=
  if h : word ≠ [] ∧ word <+: cs then
    some ⟨j, cs.drop word.length, by
      have := h.2.length_le
      have := List.length_pos_iff.2 h.1
      rw [List.length_drop]; omega⟩
  else none

/-- Reads a value that holds no other. -/
def readScalar (cs : List Char) : Option (Read cs Json) :=
  ((readString cs).map fun s => ⟨.text s.value, s.rest, s.shorter⟩)
    <|> readWord ['n', 'u', 'l', 'l'] .null cs
    <|> readWord ['t', 'r', 'u', 'e'] (.bool true) cs
    <|> readWord ['f', 'a', 'l', 's', 'e'] (.bool false) cs
    <|> readNumber cs

mutual

/-- Reads a value. -/
def readValue (cs : List Char) : Option (Read cs Json) :=
  match spaced (take? '[') cs with
  | some ⟨_, r₁, h₁⟩ => do
    let ⟨items, r₂, h₂⟩ ← readArray r₁
    return ⟨.array items, r₂, by omega⟩
  | none =>
    match spaced (take? '\x7b') cs with
    | some ⟨_, r₁, h₁⟩ => do
      let ⟨fields, r₂, h₂⟩ ← readObject r₁
      return ⟨.object fields, r₂, by omega⟩
    | none => spaced readScalar cs
termination_by (cs.length, 0)

/-- Reads an array, from behind its opening bracket. -/
def readArray (cs : List Char) : Option (Read cs (List Json)) :=
  match spaced (take? ']') cs with
  | some ⟨_, r, h⟩ => some ⟨[], r, h⟩
  | none => readItems cs
termination_by (cs.length, 2)

/-- Reads the items of an array up to its closing bracket. -/
def readItems (cs : List Char) : Option (Read cs (List Json)) := do
  let ⟨j, r₁, h₁⟩ ← readValue cs
  match spaced (take? ']') r₁ with
  | some ⟨_, r₂, h₂⟩ => return ⟨[j], r₂, by omega⟩
  | none =>
    let ⟨_, r₂, h₂⟩ ← spaced (take? ',') r₁
    let ⟨js, r₃, h₃⟩ ← readItems r₂
    return ⟨j :: js, r₃, by omega⟩
termination_by (cs.length, 1)

/-- Reads an object, from behind its opening brace. -/
def readObject (cs : List Char) : Option (Read cs (List (Text × Json))) :=
  match spaced (take? '\x7d') cs with
  | some ⟨_, r, h⟩ => some ⟨[], r, h⟩
  | none => readFields cs
termination_by (cs.length, 1)

/-- Reads the fields of an object up to its closing brace. -/
def readFields (cs : List Char) : Option (Read cs (List (Text × Json))) := do
  let ⟨k, r₁, h₁⟩ ← spaced readString cs
  let ⟨_, r₂, h₂⟩ ← spaced (take? ':') r₁
  let ⟨j, r₃, h₃⟩ ← readValue r₂
  match spaced (take? '\x7d') r₃ with
  | some ⟨_, r₄, h₄⟩ => return ⟨[(k, j)], r₄, by omega⟩
  | none =>
    let ⟨_, r₄, h₄⟩ ← spaced (take? ',') r₃
    let ⟨fs, r₅, h₅⟩ ← readFields r₄
    return ⟨(k, j) :: fs, r₅, by omega⟩
termination_by (cs.length, 0)

end

/-- Reads a text that holds one value. -/
def parse? (text : String) : Option Json :=
  match readValue text.toList with
  | some ⟨j, rest, _⟩ => if (skipSpace rest).isEmpty then some j else none
  | none => none

end TypeLedger.Json
