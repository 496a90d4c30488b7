import NestClient.Disk.Lookup
import NestClient.Text.Quoted

/-! Changes of a disk: making directories, writing files and emptying directories. A change that
fails keeps what it has done so far. -/

namespace NestClient

/-- Why a change of a disk fails. -/
inductive DiskProblem where
  | missing
  | occupied
  | notDirectory
  | isDirectory
  | tooManyLinks
  deriving DecidableEq, Repr

namespace DiskProblem

/-- The number that the system has for the problem. -/
def code : DiskProblem → Nat
  | missing => 2
  | occupied => 17
  | notDirectory => 20
  | isDirectory => 21
  | tooManyLinks => 40

def text : DiskProblem → Text
  | missing => "No such file or directory".toList
  | occupied => "File exists".toList
  | notDirectory => "Not a directory".toList
  | isDirectory => "Is a directory".toList
  | tooManyLinks => "Too many levels of symbolic links".toList

end DiskProblem

/-- A change that fails: the path at which it does, and why. -/
structure DiskFault where
  path : Path
  problem : DiskProblem
  deriving DecidableEq, Repr

def DiskFault.message (f : DiskFault) : Text :=
  "[Errno ".toList ++ Text.ofNat f.problem.code ++ "] ".toList ++ f.problem.text ++ ": ".toList
    ++ Text.quoted f.path.text

/-- Why nothing can be reached at a destination where a name is due, if it cannot. -/
def Destination.problem? : Destination → Option DiskProblem
  | .found .. | .absent .. => none
  | .lost => some .missing
  | .blocked => some .notDirectory
  | .entangled => some .tooManyLinks

/-- A change of a disk with what it answers. -/
abbrev DiskChange (α : Type) := ExceptT DiskFault (StateM Disk) α

namespace DiskChange

def put (l : Location) (e : Entry) : DiskChange Unit := modify (·.put l e)

def fail {α : Type} (p : Path) (problem : DiskProblem) : DiskChange α := throw ⟨p, problem⟩

/-! ## Making directories -/

/-- Makes a directory in one that is there. -/
def makeDirectory (p : Path) : DiskChange Unit := do
  match (← get).reach false p with
  | .absent l name => put (l ++ [name]) .directory
  | .found .. => fail p .occupied
  | destination => fail p (destination.problem?.getD .missing)

/-- Makes a directory unless it is there already. -/
def ensureDirectory (p : Path) : DiskChange Unit :=
  tryCatch (makeDirectory p) fun f => do
    if f.problem = .missing || !(← get).isDirectory p then throw f

/-- Makes a directory with those that lead to it, given its names from the last to the first. -/
def ensureNames (anchor : Anchor) : List Text → DiskChange Unit
  | [] => ensureDirectory ⟨anchor, []⟩
  | name :: outer =>
    let p : Path := ⟨anchor, (name :: outer).reverse⟩
    tryCatch (ensureDirectory p) fun f => do
      if f.problem ≠ .missing then throw f
      ensureNames anchor outer
      ensureDirectory p

/-- Makes a directory, with those that lead to it, unless it is there already. -/
def ensureDirectories (p : Path) : DiskChange Unit := ensureNames p.anchor p.names.reverse

/-! ## Writing -/

/-- Writes a file into a directory that is there. A link is followed, also to a file that is yet to
come into being. -/
def writeBytes (p : Path) (bytes : List UInt8) : DiskChange Unit := do
  match (← get).reach true p with
  | .absent l name => put (l ++ [name]) (.file bytes)
  | .found l (.file _) => put l (.file bytes)
  | .found _ .directory => fail p .isDirectory
  | .found _ (.link _) => fail p .tooManyLinks
  | destination => fail p (destination.problem?.getD .missing)

/-! ## Emptying -/

/-- Takes away what stands at a path. -/
def detach (p : Path) : DiskChange Unit := do
  match (← get).reach false p with
  | .found l _ => modify (·.erase l)
  | .absent .. => fail p .missing
  | destination => fail p (destination.problem?.getD .missing)

/-- Removes what stands at a path, a directory after all that is in it. The path is followed again
after that, and may have lost its way with what was removed. -/
def remove (p : Path) : DiskChange Unit := do
  if let .found l .directory := (← get).reach false p then modify (·.clear l)
  detach p

/-- Empties a directory and tells how many entries it had; one that is missing is made. Links in it
are removed and not followed. -/
def emptyDirectory (p : Path) : DiskChange Nat := do
  let d ← get
  match d.find? p with
  | none =>
    ensureDirectories p
    return 0
  | some (l, .directory) =>
    let names := Text.sortBy Text.le (d.children l)
    names.forM fun name => remove (p.append ⟨.here, [name]⟩)
    return names.length
  | some (_, .file _) | some (_, .link _) => fail p .notDirectory

end DiskChange

end NestClient
