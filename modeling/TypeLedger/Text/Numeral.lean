/-!
# Numbers in positional notation

* `digit?` is the value of one digit, letters in either case standing for ten and above.
* `value?` reads a run of digits in a base: `none` when it is empty or holds something else.
* `unsigned?` reads a decimal number below a bound, with an optional plus sign in front.
-/

namespace TypeLedger.Text

/-- The value of a digit in bases up to thirty-six. -/
def digitValue (c : Char) : Option Nat :=
  if '0' ≤ c ∧ c ≤ '9' then some (c.toNat - '0'.toNat)
  else if 'a' ≤ c ∧ c ≤ 'z' then some (c.toNat - 'a'.toNat + 10)
  else if 'A' ≤ c ∧ c ≤ 'Z' then some (c.toNat - 'A'.toNat + 10)
  else none

/-- The value of a digit of base `base`. -/
def digit? (base : Nat) (c : Char) : Option Nat :=
  (digitValue c).filter (· < base)

/-- Reads the digits `cs` behind digits whose value is `value`. -/
def valueFrom? (base value : Nat) : List Char → Option Nat
  | [] => some value
  | c :: cs => (digit? base c).bind fun d => valueFrom? base (value * base + d) cs

/-- The number a run of digits stands for. -/
def value? (base : Nat) (cs : List Char) : Option Nat :=
  if cs.isEmpty then none else valueFrom? base 0 cs

/-- The number below `bound` that a run of digits stands for. -/
def valueBelow? (base bound : Nat) (cs : List Char) : Option Nat :=
  (value? base cs).filter (· < bound)

/-- A decimal number below `bound`, with or without a plus sign. -/
def unsigned? (bound : Nat) (s : String) : Option Nat :=
  match s.toList with
  | '+' :: cs => valueBelow? 10 bound cs
  | cs => valueBelow? 10 bound cs

/-- How many numbers of 64 bits there are. -/
def size64 : Nat := 18446744073709551616

/-- How many numbers of 32 bits there are. -/
def size32 : Nat := 4294967296

/-- A decimal number of 64 bits. -/
def word64? (s : String) : Option UInt64 :=
  (unsigned? size64 s).map UInt64.ofNat

/-- A decimal number of 32 bits. -/
def word32? (s : String) : Option UInt32 :=
  (unsigned? size32 s).map UInt32.ofNat

end TypeLedger.Text
