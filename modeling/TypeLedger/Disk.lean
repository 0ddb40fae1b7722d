import TypeLedger.Keyed
import TypeLedger.Text.Blank

/-!
# Files by their paths

* A `Place` is where a file or a folder stands: the names that lead to it from the top, the last one
  first. A `Disk` holds texts at places; it is seen from one place, `here`.
* `Disk.walk` follows names. A single dot stays, two dots go up, and only a folder can be asked for
  a name. A name that is too long is no name, whether or not anything could have it.
* `Disk.read` and `Disk.write` open a path. A slash at the end asks for a folder: of a file it
  cannot be read, and nothing can be written there, not even a new file.
-/

namespace TypeLedger

/-! ## 1. Faults -/

/-- Why a path cannot be opened. -/
inductive FileFault
  | missing
  | denied
  | notFolder
  | isFolder
  | longName
deriving DecidableEq, Repr

namespace FileFault

def all : List FileFault := [.missing, .denied, .notFolder, .isFolder, .longName]

/-- The number of the fault. -/
def code : FileFault → Nat
  | .missing => 2
  | .denied => 13
  | .notFolder => 20
  | .isFolder => 21
  | .longName => 36

def phrase : FileFault → String
  | .missing => "No such file or directory"
  | .denied => "Permission denied"
  | .notFolder => "Not a directory"
  | .isFolder => "Is a directory"
  | .longName => "File name too long"

/-- The fault in words, with its number. -/
def words (f : FileFault) : String := f.phrase ++ " (os error " ++ toString f.code ++ ")"

/-- The fault that has a number. -/
def ofCode? (n : Nat) : Option FileFault := all.find? fun f => f.code == n

end FileFault

/-! ## 2. Paths -/

/-- The names that lead to a file or a folder from the top, the last one first. -/
abbrev Place := List String

/-- A path in its parts. -/
structure Path where
  fromTop : Bool
  names : List String
  /-- A slash at the end asks for a folder. -/
  asksFolder : Bool
deriving DecidableEq, Repr

namespace Path

/-- The bytes that a path may have, and a name in it. -/
def maxBytes : Nat := 4095

def maxNameBytes : Nat := 255

/-- The parts of a path. An empty one leads nowhere. -/
def ofText (text : String) : Except FileFault Path :=
  if text.isEmpty then .error .missing
  else if maxBytes < text.utf8ByteSize then .error .longName
  else .ok {
    fromTop := text.toList.head? == some '/'
    names := Text.pieces (· == '/') text
    asksFolder := text.toList.getLast? == some '/' }

/-- The last name is one that a file can have. -/
def namesFile (path : Path) : Bool :=
  match path.names.getLast? with
  | none => false
  | some name => name != "." && name != ".."

end Path

/-! ## 3. Disks -/

/-- What stands at a place. -/
inductive Found
  | nothing
  | folder
  | file (text : String)
deriving DecidableEq, Repr

/-- Texts at their places, seen from one place. -/
structure Disk where
  here : Place
  files : List (Place × String) := []
deriving DecidableEq, Repr

namespace Disk

/-- A place is a folder if it holds a file, or the place that the disk is seen from. -/
def isFolder (d : Disk) (p : Place) : Bool :=
  p.isSuffixOf d.here || d.files.any fun file => p.isSuffixOf file.1

/-- What stands at a place. -/
def find (d : Disk) (p : Place) : Found :=
  match d.files.lookup p with
  | some text => .file text
  | none => if d.isFolder p then .folder else .nothing

/-- The place that a name leads to. -/
def step (d : Disk) (p : Place) (name : String) : Except FileFault Place :=
  match d.find p with
  | .nothing => .error .missing
  | .file _ => .error .notFolder
  | .folder =>
    if name = "." then .ok p
    else if name = ".." then .ok p.tail
    else if Path.maxNameBytes < name.utf8ByteSize then .error .longName
    else .ok (name :: p)

/-- The place that names lead to, one after the other. -/
def walk (d : Disk) (p : Place) : List String → Except FileFault Place
  | [] => .ok p
  | name :: names => do d.walk (← d.step p name) names

/-- The place that a path starts from. -/
def start (d : Disk) (path : Path) : Place := if path.fromTop then [] else d.here

/-- The text of the file that a path leads to. -/
def read (d : Disk) (text : String) : Except FileFault String := do
  let path ← Path.ofText text
  let p ← d.walk (d.start path) (path.names ++ if path.asksFolder then ["."] else [])
  match d.find p with
  | .nothing => throw .missing
  | .folder => throw .isFolder
  | .file content => return content

/-- The disk where the file that a path leads to has a new text. -/
def write (d : Disk) (text content : String) : Except FileFault Disk := do
  let path ← Path.ofText text
  if path.asksFolder && path.namesFile then
    let _ ← d.walk (d.start path) (path.names.dropLast ++ ["."])
    throw .isFolder
  let p ← d.walk (d.start path) path.names
  match d.find p with
  | .folder => throw .isFolder
  | _ => return { d with files := Keyed.set p content d.files }

end Disk

end TypeLedger
