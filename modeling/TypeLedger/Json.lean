/-!
# JSON values

* A `Json` value keeps the fields of an object in the order in which they are written, repeated
  ones included. Of a number it keeps nothing: tables have no numbers.
* A string that names half of a surrogate pair is JSON but no text; it is `none` as a `Text`.
* `Json.pretty` writes a value over several lines, two spaces a level.
-/

namespace TypeLedger

namespace Json

/-- The text of a JSON string, `none` if an escape in it names half of a surrogate pair. -/
abbrev Text := Option String

end Json

/-- A JSON value. -/
inductive Json where
  | null
  | bool (value : Bool)
  | number
  | text (value : Json.Text)
  | array (items : List Json)
  | object (fields : List (Json.Text × Json))
deriving Repr, Inhabited

namespace Json

/-- The string of a text. -/
def ofString (s : String) : Json := .text (some s)

/-! ## 1. Strings -/

/-- The digit of base 16 with value `n`, in lower case. -/
def hexDigit (n : Nat) : Char := Nat.digitChar n

/-- A character as it stands in a string. -/
def escape (c : Char) : List Char :=
  if c = '"' then ['\\', '"']
  else if c = '\\' then ['\\', '\\']
  else if c = '\x08' then ['\\', 'b']
  else if c = '\x0c' then ['\\', 'f']
  else if c = '\n' then ['\\', 'n']
  else if c = '\r' then ['\\', 'r']
  else if c = '\t' then ['\\', 't']
  else if c.toNat < 0x20 then
    ['\\', 'u', '0', '0', hexDigit (c.toNat / 16), hexDigit (c.toNat % 16)]
  else [c]

/-- A string in quotes. What is no text is written as half of a surrogate pair. -/
def quote : Text → List Char
  | some s => ['"'] ++ s.toList.flatMap escape ++ ['"']
  | none => ['"', '\\', 'u', 'd', '8', '0', '0', '"']

/-! ## 2. Values -/

/-- The start of a line at a level. -/
def indent (level : Nat) : List Char := '\n' :: List.replicate (2 * level) ' '

mutual

/-- A value whose inner lines begin at `level`. -/
def write (level : Nat) : Json → List Char
  | null => ['n', 'u', 'l', 'l']
  | bool true => ['t', 'r', 'u', 'e']
  | bool false => ['f', 'a', 'l', 's', 'e']
  | number => ['0']
  | text t => quote t
  | array [] => ['[', ']']
  | array (j :: js) =>
    ['['] ++ indent (level + 1) ++ write (level + 1) j ++ writeItems (level + 1) js
      ++ indent level ++ [']']
  | object [] => ['\x7b', '\x7d']
  | object (f :: fs) =>
    ['\x7b'] ++ indent (level + 1) ++ writeField (level + 1) f ++ writeFields (level + 1) fs
      ++ indent level ++ ['\x7d']

/-- The items of an array behind the first. -/
def writeItems (level : Nat) : List Json → List Char
  | [] => []
  | j :: js => [','] ++ indent level ++ write level j ++ writeItems level js

/-- A field of an object. -/
def writeField (level : Nat) : Text × Json → List Char
  | (k, j) => quote k ++ [':', ' '] ++ write level j

/-- The fields of an object behind the first. -/
def writeFields (level : Nat) : List (Text × Json) → List Char
  | [] => []
  | f :: fs => [','] ++ indent level ++ writeField level f ++ writeFields level fs

end

/-- The value over several lines. -/
def pretty (j : Json) : String := String.ofList (j.write 0)

end Json

end TypeLedger
