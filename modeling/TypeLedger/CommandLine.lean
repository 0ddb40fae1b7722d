import TypeLedger.Disk
import TypeLedger.Pipeline

/-!
# The command line

* `Options.parse?` reads the arguments of a command. A word without a dash is the input file; after
  `--` every word is. An option takes its value from behind an equals sign or from the next word,
  the short `-o` also from the rest of its own word.
* `Options.run` does what is asked for: with a table the text of the table or of one declaration,
  without one the table of the input file.
* `Options.runOn` runs a command on a disk, down to what it prints and the files it leaves behind.
-/

namespace TypeLedger

/-- An option without a value. -/
inductive Switch
  | roundTrip
  | trace
  | fullTrace
  | noTable
  | label
  | verbose
deriving DecidableEq, Repr

/-- An option with a value. -/
inductive Valued
  | output
  | table
  | declare
  | name
  | bases
  | renames
deriving DecidableEq, Repr

/-- What one argument, or two, mean. -/
inductive Argument
  | input (path : String)
  | switch (switch : Switch)
  | valued (option : Valued) (value : String)
deriving DecidableEq, Repr

namespace Argument

/-! ## 1. Words -/

def switches : List (List Char × Switch) :=
  [("--roundtrip".toList, .roundTrip), ("--trace-type-table".toList, .trace),
   ("--fulltrace-type-table".toList, .fullTrace), ("--disable-type-table".toList, .noTable),
   ("--label-type".toList, .label), ("--verbose".toList, .verbose)]

def options : List (List Char × Valued) :=
  [("--output".toList, .output), ("--table".toList, .table), ("--declare".toList, .declare),
   ("--name".toList, .name), ("--bases".toList, .bases), ("--typenamemap".toList, .renames)]

/-- A value that is allowed: a path is not empty. -/
def value? (option : Valued) (value : String) : Option Argument :=
  match option with
  | .output | .table | .renames =>
    if value.isEmpty then none else some (.valued option value)
  | .declare | .name | .bases => some (.valued option value)

/-- A word that can be the value of the option in front of it. -/
def isPlain (word : String) : Bool :=
  word.toList.head? != some '-' || word.toList.length == 1

/-- The value of an option that takes the next word, and the words behind. -/
def next? (option : Valued) : List String → Option (Argument × List String)
  | [] => none
  | word :: rest => if isPlain word then (value? option word).map (·, rest) else none

/-- A word with two dashes and its equals sign, if it has one. -/
def long? (word : List Char) (rest : List String) : Option (List Argument × List String) :=
  let key := word.takeWhile (· != '=')
  let assigned := word.dropWhile (· != '=')
  match switches.lookup key with
  | some s => if assigned.isEmpty then some ([.switch s], rest) else none
  | none => do
    let option ← options.lookup key
    match assigned with
    | _ :: value => do
      let a ← value? option (String.ofList value)
      return ([a], rest)
    | [] => do
      let (a, rest) ← next? option rest
      return ([a], rest)

/-- The letters behind a single dash. -/
def short? (rest : List String) : List Char → Option (List Argument × List String)
  | [] => some ([], rest)
  | 'v' :: letters => do
    let (as, rest) ← short? rest letters
    return (.switch .verbose :: as, rest)
  | 'o' :: [] => do
    let (a, rest) ← next? .output rest
    return ([a], rest)
  | 'o' :: letters => do
    let value := if letters.head? = some '=' then letters.drop 1 else letters
    let a ← value? .output (String.ofList value)
    return ([a], rest)
  | _ => none

theorem length_next? {option : Valued} {words rest : List String} {a : Argument}
    (h : next? option words = some (a, rest)) : rest.length ≤ words.length := by
  unfold next? at h
  split at h
  · simp at h
  · split at h
    · simp only [Option.map_eq_some_iff, Prod.mk.injEq] at h
      obtain ⟨_, _, _, rfl⟩ := h
      simp
    · simp at h

theorem length_long? {word : List Char} {words rest : List String} {as : List Argument}
    (h : long? word words = some (as, rest)) : rest.length ≤ words.length := by
  unfold long? at h
  simp only [Option.pure_def, Option.bind_eq_bind] at h
  split at h
  · split at h <;> simp at h
    exact Nat.le_of_eq (congrArg List.length h.2.symm)
  · simp only [Option.bind_eq_some_iff] at h
    obtain ⟨option, -, h⟩ := h
    split at h
    · simp only [Option.bind_eq_some_iff, Option.some.injEq, Prod.mk.injEq] at h
      obtain ⟨_, _, _, rfl⟩ := h
      exact Nat.le_refl _
    · simp only [Option.bind_eq_some_iff, Option.some.injEq, Prod.mk.injEq, Prod.exists] at h
      obtain ⟨_, _, hn, _, rfl⟩ := h
      exact length_next? hn

theorem length_short? {letters : List Char} {words rest : List String} {as : List Argument}
    (h : short? words letters = some (as, rest)) : rest.length ≤ words.length := by
  fun_induction short? words letters generalizing as with
  | case1 => simp at h; exact Nat.le_of_eq (congrArg List.length h.2.symm)
  | case2 letters ih =>
    simp only [Option.pure_def, Option.bind_eq_bind, Option.bind_eq_some_iff, Option.some.injEq,
      Prod.mk.injEq, Prod.exists] at h
    obtain ⟨_, _, hs, _, rfl⟩ := h
    exact ih hs
  | case3 =>
    simp only [Option.pure_def, Option.bind_eq_bind, Option.bind_eq_some_iff, Option.some.injEq,
      Prod.mk.injEq, Prod.exists] at h
    obtain ⟨_, _, hn, _, rfl⟩ := h
    exact length_next? hn
  | case4 =>
    simp only [Option.pure_def, Option.bind_eq_bind, Option.bind_eq_some_iff, Option.some.injEq,
      Prod.mk.injEq] at h
    obtain ⟨_, _, _, rfl⟩ := h
    exact Nat.le_refl _
  | case5 => simp at h

/-- An input file, whose path is not empty. -/
def input? (word : String) : Option Argument :=
  if word.isEmpty then none else some (.input word)

/-- What the words of a command line mean; `none` if one means nothing. -/
def readAll? (words : List String) : Option (List Argument) :=
  match words with
  | [] => some []
  | word :: rest =>
    match word.toList with
    | ['-', '-'] => rest.mapM input?
    | '-' :: '-' :: letters =>
      match h : long? ('-' :: '-' :: letters) rest with
      | some (as, rest') =>
        have := length_long? h
        (readAll? rest').map (as ++ ·)
      | none => none
    | '-' :: l :: letters =>
      match h : short? rest (l :: letters) with
      | some (as, rest') =>
        have := length_short? h
        (readAll? rest').map (as ++ ·)
      | none => none
    | _ => do
      let a ← input? word
      let as ← readAll? rest
      return a :: as
termination_by words.length
decreasing_by all_goals simp only [List.length_cons]; omega

/-- Two arguments that may not stand together: they say the same thing. -/
def clashes : Argument → Argument → Bool
  | .input _, .input _ => true
  | .switch s, .switch t => s == t
  | .valued o _, .valued p _ => o == p
  | _, _ => false

end Argument

/-! ## 2. Options -/

/-- What a command is asked for. -/
structure Options where
  arguments : List Argument
deriving DecidableEq, Repr

namespace Options

def has (o : Options) (s : Switch) : Bool := o.arguments.contains (.switch s)

/-- The value of an option. -/
def value? (o : Options) (option : Valued) : Option String :=
  o.arguments.findSome? fun
    | .valued p v => if p = option then some v else none
    | _ => none

/-- The input file. -/
def input? (o : Options) : Option String :=
  o.arguments.findSome? fun
    | .input path => some path
    | _ => none

/-- No argument is repeated. -/
def noRepeats : List Argument → Bool
  | [] => true
  | a :: as => !as.any a.clashes && noRepeats as

/-- Reads a command line. A declaration and bases are asked of a table only. -/
def parse? (words : List String) : Option Options := do
  let arguments ← Argument.readAll? words
  let o : Options := ⟨arguments⟩
  let needsTable := (o.value? .declare).isSome || (o.value? .bases).isSome
  if noRepeats arguments && (!needsTable || (o.value? .table).isSome) then some o else none

/-- The files that a command may read. -/
def paths (o : Options) : List String :=
  o.input?.toList ++ (o.value? .table).toList ++ (o.value? .renames).toList

/-- The settings of a run whose input is `input`. -/
def settings (o : Options) (input : String) : Settings where
  input
  renames := o.value? .renames
  noTable := o.has .noTable
  label := o.has .label
  verbose := o.has .verbose
  detail := if o.has .fullTrace then .full else if o.has .trace then .entries else .quiet

/-! ## 3. Commands -/

/-- The text of one answer of a table's environment. -/
def askTable (t : Table) (ask : Environment → StateM Naming String) : Run String := do
  let (checked, naming) := Environment.ofEntries t.types {}
  let env ← Run.lift .entry checked
  return (ask env naming).1 ++ "\n"

/-- The text that is asked of the table in a file. -/
def runTable (files : Files) (o : Options) (path : String) : Run String := do
  let t ← loadTable files path
  match o.value? .declare, o.value? .bases with
  | some id, _ => askTable t fun env => env.declare ⟨id⟩ ((o.value? .name).getD "")
  | none, some id => askTable t fun env => env.basesText ⟨id⟩
  | none, none => render (o.settings path) t

/-- The text that is asked of a source, as a table or turned back into declarations. -/
def runSource (files : Files) (o : Options) (path : String) : Run String := do
  let s := o.settings path
  let g ← generate files s
  if o.has .roundTrip then render s g.table else return g.table.write ++ "\n"

/-- The text that a command answers. -/
def run (files : Files) (o : Options) : Run String :=
  match o.value? .table with
  | some path => runTable files o path
  | none =>
    match o.input? with
    | some path => runSource files o path
    | none => throw .noInput

/-! ## 4. Commands on a disk -/

/-- The line that reports a fault. -/
def faultLine (message : String) : String := "Error: " ++ message

/-- What a command leaves behind. The reports are lines of the standard error. -/
structure Outcome where
  exit : Nat
  answer : String
  reports : List String
  disk : Disk

/-- Runs a command on a disk. The answer is printed, or written to the output file. -/
def runOn (disk : Disk) (o : Options) : Outcome :=
  let (outcome, log) := (o.run fun path => (disk.read path).mapError FileFault.words).result
  let failed (message : String) : Outcome := ⟨1, "", log ++ [faultLine message], disk⟩
  match outcome, o.value? .output with
  | .error failure, _ => failed failure.message
  | .ok answer, none => ⟨0, answer, log, disk⟩
  | .ok answer, some path =>
    match disk.write path answer with
    | .ok disk => ⟨0, "", log, disk⟩
    | .error fault => failed fault.words

end Options

end TypeLedger
