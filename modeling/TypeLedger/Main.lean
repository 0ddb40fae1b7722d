import TypeLedger.CommandLine

/-!
# The program

* The files that a command may read are read first; a file that cannot be read stays with the words
  of the system, which only a command that needs it reports.
* Reports and faults go to the standard error, the answer to the output file or the standard output.
  The exit code is two for a command line that says nothing, one for a failure.
-/

namespace TypeLedger.Program

/-- The words for a fault of the system. Its number may come with the sign turned. -/
def systemWords (fault : IO.Error) : String :=
  let named (code : UInt32) (f : FileFault) : String :=
    let n := min code.toNat (UInt32.size - code.toNat)
    ((FileFault.ofCode? n).getD f).words
  match fault with
  | .noFileOrDirectory _ code _ => named code .missing
  | .permissionDenied _ code _ => named code .denied
  | .inappropriateType _ code _ => named code .isFolder
  | .invalidArgument _ code _ => named code .longName
  | fault => toString fault

/-- The text of a file, or the words of the system why there is none. -/
def readText (path : String) : IO (Except String String) := do
  match ← (IO.FS.readBinFile path).toBaseIO with
  | .error fault => return .error (systemWords fault)
  | .ok bytes =>
    return (String.fromUTF8? bytes).elim (.error "stream did not contain valid UTF-8") .ok

/-- The texts of some files. -/
def readTexts (paths : List String) : IO Files := do
  let texts ← paths.mapM fun path => do return (path, ← readText path)
  return fun path => (texts.lookup path).getD (.error FileFault.missing.words)

/-- Writes an answer to the output file, or to the standard output without one. -/
def writeAnswer (output : Option String) (answer : String) : IO (Except String Unit) := do
  match output with
  | none => IO.print answer; return .ok ()
  | some path =>
    match ← (IO.FS.writeFile path answer).toBaseIO with
    | .ok () => return .ok ()
    | .error fault => return .error (systemWords fault)

/-- Reports a fault. -/
def fail (message : String) : IO UInt32 := do
  IO.eprintln (Options.faultLine message)
  return 1

/-- Does what the options ask for. -/
def perform (o : Options) : IO UInt32 := do
  let files ← readTexts o.paths
  let (outcome, log) := (o.run files).result
  IO.eprint (linesText log)
  match outcome with
  | .error failure => fail failure.message
  | .ok answer =>
    match ← writeAnswer (o.value? .output) answer with
    | .ok () => return 0
    | .error words => fail words

/-- How the program is called. -/
def usage : String := "Usage: type-ledger [OPTIONS] [INPUT]"

end TypeLedger.Program

open TypeLedger in
def main (args : List String) : IO UInt32 :=
  match Options.parse? args with
  | some o => Program.perform o
  | none => do
    IO.eprintln Program.usage
    return 2
