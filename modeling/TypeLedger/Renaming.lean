import TypeLedger.Text.Blank
import TypeLedger.Text.Quoted
import TypeLedger.TypeId

/-!
# Renaming identifiers

* A `Renaming` gives identifiers of a table other texts. Its written form has one pair of words a
  line, the old text and the new one; whatever follows on the line is passed over, and so is a
  blank line. The last pair for a text counts.
-/

namespace TypeLedger

/-- The texts that replace others. -/
structure Renaming where
  pairs : List (String × String) := []
deriving Repr, Inhabited

/-- A line with a single word. -/
structure RenamingFault where
  line : Nat
  text : String
deriving DecidableEq, Repr

def RenamingFault.message (f : RenamingFault) : String :=
  "typename map line " ++ toString f.line ++ ": read error: " ++ Text.quoteString f.text

namespace Renaming

def get? (m : Renaming) (old : String) : Option String := m.pairs.lookup old

/-- Replaces `old` by `new` from now on. -/
def insert (m : Renaming) (old new : String) : Renaming := ⟨Keyed.set old new m.pairs⟩

/-- Adds the pairs of some lines, the first of which has number `n`. -/
def readLines (m : Renaming) (n : Nat) : List String → Except RenamingFault Renaming
  | [] => .ok m
  | line :: rest =>
    match Text.words line with
    | [] => readLines m (n + 1) rest
    | [_] => .error ⟨n, line⟩
    | old :: new :: _ => readLines (m.insert old new) (n + 1) rest

/-- Reads the written form. -/
def read (text : String) : Except RenamingFault Renaming :=
  readLines {} 1 (Text.lines text)

/-- The identifier that replaces another. An empty text replaces nothing. -/
def apply (m : Renaming) (id : TypeId) : TypeId :=
  match m.get? id.text with
  | some new => if new.isEmpty then id else ⟨new⟩
  | none => id

end Renaming

/-- The identifier of the entry that stands for labels. -/
def TypeId.label : TypeId := ⟨"Label"⟩

end TypeLedger
