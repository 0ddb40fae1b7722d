/-!
# Pieces of declaration text

* Text is put together from pieces with single spaces between; an empty piece leaves no trace.
* `incomplete` stands where a type is not known.
-/

namespace TypeLedger.Fragment

/-- Two pieces side by side, with a space between if neither is empty. -/
def beside (a b : String) : String :=
  if b.isEmpty then a else if a.isEmpty then b else a ++ " " ++ b

/-- Many pieces side by side. -/
def ofWords (ws : List String) : String := ws.foldl beside ""

/-- Pieces with a separator between, empty ones included. -/
def join (separator : String) (pieces : List String) : String := separator.intercalate pieces

/-- The text in place of a declaration whose type is not known. -/
def incomplete (name : String) : String := "INCOMPLETE_TYPE *" ++ name

end TypeLedger.Fragment
