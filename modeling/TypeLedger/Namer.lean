/-!
# Names for aggregates without a tag

* A `Namer` makes up names from a running number. It never makes a name that is taken: one it has
  made before, or one that was reserved because a source or a table uses it.
* A `Tag` is what an aggregate is called: its own tag, or a serial number if it has none. The
  `Naming` of a table and the environments over it says which made-up name each serial number has
  been given so far. A name is given when it is first asked for, and stays.
-/

namespace TypeLedger

/-! ## 1. Making up names -/

/-- The number made up last, and the names that are taken. -/
structure Namer where
  issued : Nat := 0
  taken : List String := []
deriving Repr, Inhabited

namespace Namer

/-- The made-up name with number `n`. -/
def numbered (n : Nat) : String := "__anon_" ++ toString n

/-- The least number above `n` whose name is not among `taken`. A number that is passed over takes
its name out of the list, which therefore gets shorter. -/
def freeNumber (taken : List String) (n : Nat) : Nat :=
  if numbered (n + 1) ∈ taken then freeNumber (taken.erase (numbered (n + 1))) (n + 1) else n + 1
termination_by taken.length
decreasing_by
  rename_i h
  rw [List.length_erase_of_mem h]
  exact Nat.sub_lt (List.length_pos_of_mem h) Nat.one_pos

/-- Makes up a name. -/
def fresh (k : Namer) : String × Namer :=
  let n := freeNumber k.taken k.issued
  (numbered n, ⟨n, numbered n :: k.taken⟩)

/-- Takes a name, so that it is never made up. -/
def reserve (k : Namer) (name : String) : Namer := { k with taken := name :: k.taken }

/-- The name there is, or else a made-up one. -/
def nameOr (k : Namer) : Option String → String × Namer
  | some name => (name, k)
  | none => k.fresh

end Namer

/-! ## 2. Naming aggregates -/

/-- What an aggregate is called. -/
inductive Tag
  | named (name : String)
  /-- It has no tag; the number tells it from all others without one. -/
  | anonymous (serial : Nat)
deriving DecidableEq, Repr

/-- The state of naming: the namer, the names given so far by serial number, and how many serial
numbers are in use. -/
structure Naming where
  namer : Namer := {}
  given : List (Nat × String) := []
  serials : Nat := 0
deriving Repr, Inhabited

namespace Naming

/-- Takes a name, so that it is never made up. -/
def reserve (k : Naming) (name : String) : Naming := { k with namer := k.namer.reserve name }

/-- The tag of a new aggregate. An empty name counts as none. -/
def tag (k : Naming) : Option String → Tag × Naming
  | some name =>
    if name.isEmpty then (.anonymous k.serials, { k with serials := k.serials + 1 })
    else (.named name, k)
  | none => (.anonymous k.serials, { k with serials := k.serials + 1 })

/-- The name of an aggregate as far as it has one. -/
def current? (k : Naming) : Tag → Option String
  | .named name => some name
  | .anonymous serial => k.given.lookup serial

/-- The name of an aggregate, given to it now if it has none yet. -/
def name (t : Tag) : StateM Naming String := fun k =>
  match t with
  | .named name => (name, k)
  | .anonymous serial =>
    match k.given.lookup serial with
    | some name => (name, k)
    | none =>
      let (name, namer) := k.namer.fresh
      (name, { k with namer, given := (serial, name) :: k.given })

end Naming

end TypeLedger
