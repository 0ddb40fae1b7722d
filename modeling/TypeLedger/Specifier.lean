import TypeLedger.Token

/-!
# What builtin type words spell

* The builtin words of a declaration form a type by how often each occurs; their order plays no
  part.
* `formed?` gives the one spelling of the type for given numbers of occurrences, or `none` for words
  that form no type; `canonical?` gives it for a list of words. Words that a rule does not look at
  are passed over.
* `WordCounters` counts the words in one byte each.
* `Counting` is how a parser counts: exactly (`Counting.exact`), as a program does that stops where
  a counter is full, or in bytes (`Counting.bytes`), as one does that goes on with what is left in
  them.
* `report` is how a message shows the words: the count of each.
-/

namespace TypeLedger

namespace BuiltinWord

/-- The words in the order in which a report counts them. -/
def all : List BuiltinWord :=
  [.void, .char, .short, .int, .long, .float, .double, .signed, .unsigned, .bool, .wchar,
   .char16, .char32, .int128]

/-- The name under which a report counts the word. -/
def counter : BuiltinWord → String
  | .void => "void"
  | .char => "char"
  | .short => "short"
  | .int => "int"
  | .long => "long"
  | .float => "float"
  | .double => "double"
  | .signed => "signed"
  | .unsigned => "unsigned"
  | .bool => "bool"
  | .wchar => "wchar"
  | .char16 => "char16"
  | .char32 => "char32"
  | .int128 => "int128"

/-- The spelling of the type that builtin words form which occur `n` times each. There are `signs`
signs among them, and `plain` signs and `int`s. The first of the words, in the order of the tests,
decides which type it can be. -/
def formed? (n : BuiltinWord → Nat) (signs plain : Nat) : Option String :=
  let alone (w : BuiltinWord) (spelling : String) : Option String :=
    if n w = 1 ∧ signs = 0 then some spelling else none
  if 0 < n .void then alone .void "void"
  else if 0 < n .bool then alone .bool "bool"
  else if 0 < n .wchar then alone .wchar "wchar_t"
  else if 0 < n .char16 then alone .char16 "char16_t"
  else if 0 < n .char32 then alone .char32 "char32_t"
  else if 0 < n .float then alone .float "float"
  else if 0 < n .double then
    if n .long = 0 then alone .double "double"
    else if n .long = 1 then alone .double "long double"
    else none
  else if 1 < signs then none
  else if 0 < n .char then
    if 1 < n .char then none
    else if n .signed = 1 then some "signed char"
    else if n .unsigned = 1 then some "unsigned char"
    else some "char"
  else if 0 < n .int128 then
    if 1 < n .int128 then none
    else if n .unsigned = 1 then some "unsigned __int128"
    else some "__int128"
  else if 0 < n .short then
    if 1 < n .short then none
    else if n .unsigned = 1 then some "unsigned short"
    else some "short"
  else if n .long = 1 then
    if n .unsigned = 1 then some "unsigned long" else some "long"
  else if n .long = 2 then
    if n .unsigned = 1 then some "unsigned long long" else some "long long"
  else if 0 < n .long then none
  else if 0 < plain then
    if 1 < n .int then none
    else if n .unsigned = 1 then some "unsigned int"
    else some "int"
  else none

/-- The spelling of the type that a list of builtin words forms. -/
def canonical? (ws : List BuiltinWord) : Option String :=
  formed? ws.count (ws.count .signed + ws.count .unsigned)
    (ws.count .int + (ws.count .signed + ws.count .unsigned))

/-- Only the number of times each word occurs matters. -/
theorem canonical?_perm {ws vs : List BuiltinWord} (h : ws.Perm vs) :
    canonical? ws = canonical? vs := by
  simp only [canonical?, formed?, h.count_eq]

/-- Words that occur `n` times each, in the order in which a report counts them. -/
def inOrder (n : BuiltinWord → Nat) : List BuiltinWord :=
  all.flatMap fun w => List.replicate (n w) w

/-- The counts of the words, as a message shows them. -/
def report (ws : List BuiltinWord) : String :=
  "BuiltinSpecs \x7b "
    ++ ", ".intercalate (all.map fun w => w.counter ++ ": " ++ toString (ws.count w))
    ++ " \x7d"

end BuiltinWord

/-! ## Counters -/

/-- How often each of the words has been counted, in one byte. -/
structure WordCounters where
  count : BuiltinWord → UInt8

namespace WordCounters

open BuiltinWord (all formed?)

def zero : WordCounters := ⟨fun _ => 0⟩

/-- The word is counted once more. Behind 255 comes 0. -/
def add (c : WordCounters) (w : BuiltinWord) : WordCounters :=
  ⟨fun v => if v = w then c.count v + 1 else c.count v⟩

/-- The counters behind a list of words, of which the last has been counted first. -/
def ofWords (ws : List BuiltinWord) : WordCounters := ws.foldr (fun w c => c.add w) zero

/-- The sum of all counters, again in one byte. -/
def total (c : WordCounters) : UInt8 := all.foldr (fun w n => c.count w + n) 0

def spelling? (c : WordCounters) : Option String :=
  formed? (fun w => (c.count w).toNat) (c.count .signed + c.count .unsigned).toNat
    (c.count .int + (c.count .signed + c.count .unsigned)).toNat

variable {ws : List BuiltinWord}

theorem ofWords_cons (w : BuiltinWord) (ws : List BuiltinWord) :
    ofWords (w :: ws) = (ofWords ws).add w := rfl

/-- A counter holds the low bits of a number. -/
theorem count_ofWords (ws : List BuiltinWord) (w : BuiltinWord) :
    (ofWords ws).count w = UInt8.ofNat (ws.count w) := by
  induction ws with
  | nil => rfl
  | cons v ws ih =>
    rw [ofWords_cons, add, List.count_cons]
    by_cases h : w = v
    · subst h
      simp [ih, UInt8.ofNat_add]
    · simp [h, Ne.symm h, ih]

theorem foldr_add (c : WordCounters) (w : BuiltinWord) (vs : List BuiltinWord) :
    vs.foldr (fun v n => (c.add w).count v + n) 0 =
      vs.foldr (fun v n => c.count v + n) 0 + UInt8.ofNat (vs.count w) := by
  induction vs with
  | nil => rfl
  | cons v vs ih =>
    rw [List.foldr_cons, List.foldr_cons, ih, List.count_cons]
    by_cases h : v = w
    · simp only [add, h, ↓reduceIte, beq_self_eq_true, UInt8.ofNat_add]
      show _ + 1 + _ = _ + (_ + 1)
      ac_rfl
    · simp only [add, h, ↓reduceIte, beq_iff_eq]
      ac_rfl

/-- The sum of the counters holds the low bits of the number of words. -/
theorem total_ofWords (ws : List BuiltinWord) : (ofWords ws).total = UInt8.ofNat ws.length := by
  induction ws with
  | nil => rfl
  | cons w ws ih =>
    have hone : all.count w = 1 := by cases w <;> rfl
    rw [ofWords_cons, total, foldr_add, ← total, ih, hone, List.length_cons, UInt8.ofNat_add]

/-- The counters sum up to zero if the number of words is a multiple of 256. -/
theorem total_beq_zero (ws : List BuiltinWord) :
    ((ofWords ws).total == 0) = (ws.length % 256 == 0) := by
  have htotal : (ofWords ws).total.toNat = ws.length % 256 := by
    rw [total_ofWords]
    exact UInt8.toNat_ofNat'
  rw [Bool.eq_iff_iff, beq_iff_eq, beq_iff_eq, ← htotal, ← UInt8.toNat_inj]
  rfl

theorem count_int_signs_le (ws : List BuiltinWord) :
    ws.count .int + (ws.count .signed + ws.count .unsigned) ≤ ws.length := by
  induction ws with
  | nil => exact Nat.le_refl 0
  | cons w ws ih => cases w <;> simp <;> omega

section Few

variable (h : ws.length < 256)
include h

theorem toNat_count (w : BuiltinWord) : ((ofWords ws).count w).toNat = ws.count w := by
  rw [count_ofWords]
  exact UInt8.toNat_ofNat_of_lt' (Nat.lt_of_le_of_lt List.count_le_length h)

theorem total_beq_zero_eq_isEmpty : ((ofWords ws).total == 0) = ws.isEmpty := by
  rw [total_beq_zero, Nat.mod_eq_of_lt h, Bool.eq_iff_iff, beq_iff_eq,
    List.isEmpty_iff_length_eq_zero]

/-- Fewer than 256 words are counted as they are. -/
theorem spelling?_ofWords : (ofWords ws).spelling? = BuiltinWord.canonical? ws := by
  have hle := count_int_signs_le ws
  have hsigns : ((ofWords ws).count .signed + (ofWords ws).count .unsigned).toNat =
      ws.count .signed + ws.count .unsigned := by
    rw [UInt8.toNat_add, toNat_count h, toNat_count h]
    exact Nat.mod_eq_of_lt (by omega)
  have hplain : ((ofWords ws).count .int +
      ((ofWords ws).count .signed + (ofWords ws).count .unsigned)).toNat =
      ws.count .int + (ws.count .signed + ws.count .unsigned) := by
    rw [UInt8.toNat_add, hsigns, toNat_count h]
    exact Nat.mod_eq_of_lt (by omega)
  rw [spelling?, BuiltinWord.canonical?, hsigns, hplain, funext (toNat_count h)]

end Few

end WordCounters

/-- How a parser counts builtin words: whether there are any, what they spell, and which words a
message shows. -/
class Counting where
  isEmpty : List BuiltinWord → Bool
  spelling? : List BuiltinWord → Option String
  shown : List BuiltinWord → List BuiltinWord

namespace Counting

/-- Counters that have room for every number. A program that stops where a counter is full has
counted exactly as long as it runs. -/
instance exact : Counting where
  isEmpty := List.isEmpty
  spelling? := BuiltinWord.canonical?
  shown ws := BuiltinWord.inOrder ws.count

/-- Counters of one byte, with which a program goes on behind 255. -/
abbrev bytes : Counting where
  isEmpty ws := (WordCounters.ofWords ws).total == 0
  spelling? ws := (WordCounters.ofWords ws).spelling?
  shown ws := BuiltinWord.inOrder fun w => ((WordCounters.ofWords ws).count w).toNat

@[simp] theorem isEmpty_exact (ws : List BuiltinWord) : isEmpty ws = ws.isEmpty := rfl

@[simp] theorem spelling?_exact (ws : List BuiltinWord) :
    spelling? ws = BuiltinWord.canonical? ws := rfl

@[simp] theorem shown_exact (ws : List BuiltinWord) : shown ws = BuiltinWord.inOrder ws.count := rfl

end Counting

end TypeLedger
