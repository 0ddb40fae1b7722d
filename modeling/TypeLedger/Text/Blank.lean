/-!
# Lines, blanks and words

* `isBlank` is the Unicode property White_Space.
* `lines` cuts a text at its line feeds; a carriage return in front of a line feed belongs to the
  line's end, and the end of the text does not open another line.
* `pieces` are the longest runs without a break; `words` are those without a blank.
-/

namespace TypeLedger.Text

/-- The characters with the property White_Space. -/
def isBlank (c : Char) : Bool :=
  let n := c.toNat
  (9 ≤ n && n ≤ 13) || n = 0x20 || n = 0x85 || n = 0xa0 || n = 0x1680
    || (0x2000 ≤ n && n ≤ 0x200a) || n = 0x2028 || n = 0x2029 || n = 0x202f || n = 0x205f
    || n = 0x3000

/-- A line without the carriage return that ends it. -/
def dropReturn (line : List Char) : List Char :=
  match line.reverse with
  | '\r' :: rest => rest.reverse
  | _ => line

/-- The lines of `cs`, where `current` holds the characters of the current line, last first. -/
def linesFrom (current : List Char) : List Char → List (List Char)
  | [] => if current.isEmpty then [] else [current.reverse]
  | '\n' :: cs => dropReturn current.reverse :: linesFrom [] cs
  | c :: cs => linesFrom (c :: current) cs

/-- The lines of a text. -/
def lines (s : String) : List String :=
  (linesFrom [] s.toList).map String.ofList

/-- The pieces of `cs` between breaks, where `current` holds the characters of the open piece, last
first. An empty piece is left out. -/
def piecesFrom (isBreak : Char → Bool) (current : List Char) : List Char → List (List Char)
  | [] => if current.isEmpty then [] else [current.reverse]
  | c :: cs =>
    if isBreak c then
      if current.isEmpty then piecesFrom isBreak [] cs
      else current.reverse :: piecesFrom isBreak [] cs
    else piecesFrom isBreak (c :: current) cs

/-- The pieces of a text between breaks, without empty ones. -/
def pieces (isBreak : Char → Bool) (s : String) : List String :=
  (piecesFrom isBreak [] s.toList).map String.ofList

/-- The words of a text. -/
def words (s : String) : List String := pieces isBlank s

end TypeLedger.Text
