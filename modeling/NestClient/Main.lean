import NestClient.CommandLine.Run
import NestClient.Disk.Edit
import NestClient.Path.Lexical

/-! The program. It reads the workspace that its arguments name and what is linked to from there, runs the
command on what it has read, makes the changes and prints what the command prints. Reports go to the error
stream. -/

namespace NestClient.Program

/-! ## Reading a workspace -/

/-- The target of a link with all further links followed. A link that leads nowhere gets itself for
its target. -/
def linkTarget (link : IO.FS.DirEntry) : IO Text := do
  try
    return (← IO.FS.realPath link.path).toString.toList
  catch _ => return link.fileName.toList

def systemName (l : Location) : String := String.ofList (Path.mk .root l).text

def placeAt (l : Location) : IO.FS.DirEntry :=
  ⟨systemName l.dropLast, String.ofList (l.getLastD [])⟩

def isIgnoredDirectory (place : IO.FS.DirEntry) : IO Bool := do
  if defaultIgnores.contains place.fileName.toList then
    return (← place.path.symlinkMetadata).type == .dir
  return false

/-- What stands at a place and below it. Ignored directories below it are taken as empty, but for those
among the output, which is emptied with all that it holds. -/
partial def readPlace (output l : Location) (place : IO.FS.DirEntry) : IO (List (Location × Entry)) := do
  match (← place.path.symlinkMetadata).type with
  | .dir =>
    let inner ← (← place.path.readDir).toList.mapM fun entry => do
      let m := l ++ [entry.fileName.toList]
      if !output.isPrefixOf m && (← isIgnoredDirectory entry) then return [(m, Entry.directory)]
      readPlace output m entry
    return (l, .directory) :: inner.flatten
  | .file => return [(l, .file (← IO.FS.readBinFile place.path).toList)]
  | .symlink => return [(l, .link (← linkTarget place))]
  | .other => return []

/-- The directories that lead to a location. -/
def leadingTo (l : Location) : List (Location × Entry) :=
  (List.range (l.length - 1)).map fun n => (l.take (n + 1), .directory)

/-- The locations that links lead to. -/
def linkedLocations (entries : List (Location × Entry)) : List Location :=
  entries.filterMap fun (_, e) =>
    match e with
    | .link target => if target.head? = some '/' then some (Path.namesOf target) else none
    | .file _ | .directory => none

/-- The location lies below a place that has been read, and in no ignored directory there. -/
def isRead (read : List Location) (l : Location) : Bool :=
  read.any fun r => r.isPrefixOf l && !(l.drop r.length).any defaultIgnores.contains

/-- Reads on where links lead out of the places that have been read. What leads to the workspace itself is
left alone. -/
partial def followLinks (workspace output : Location) (read : List Location)
    (entries : List (Location × Entry)) : IO (List (Location × Entry)) := do
  let unread := (linkedLocations entries).find? fun l => !(l.isPrefixOf workspace || isRead read l)
  match unread with
  | none => return entries
  | some l =>
    let found ← try readPlace output l (placeAt l) catch _ => pure []
    let more := (leadingTo l ++ found).filter fun (m, _) => !entries.any (·.1 = m)
    followLinks workspace output (l :: read) (entries ++ more)

/-- The directory of the clients of a workspace, with all links followed. -/
def outputLocation (workspace : Path) : IO Location := do
  let output := ({} : Config).outputPath workspace
  try
    return Path.namesOf (← IO.FS.realPath (String.ofList output.text)).toString.toList
  catch _ => return output.names

/-- The disk as far as it lies in a directory or is linked to from there, and the path of that. -/
def readDisk (workspace : Text) : IO (Path × Disk) := do
  let top := Path.ofText (← IO.FS.realPath (String.ofList workspace)).toString.toList
  let output ← outputLocation top
  let entries ← readPlace output top.names (placeAt top.names)
  return (top, ⟨← followLinks top.names output [top.names] (leadingTo top.names ++ entries)⟩)

/-! ## Writing a workspace -/

/-- Makes one change in the place that the disk was read from. -/
def apply : Edit → IO Unit
  | .remove l => do
    match (← (placeAt l).path.symlinkMetadata).type with
    | .dir => IO.FS.removeDirAll (placeAt l).path
    | .file | .symlink | .other => IO.FS.removeFile (placeAt l).path
  | .makeDirectory l => IO.FS.createDir (systemName l)
  | .write l bytes => IO.FS.writeBinFile (systemName l) ⟨bytes.toArray⟩

def printEvents (detail : Bool) (events : List Event) : IO Unit :=
  events.forM fun e => do
    if detail || e.level ≠ .debug then
      IO.eprintln (String.ofList (e.level.name ++ ' ' :: e.message))

/-- Runs a command in the directory at a path, which the disk was read from. -/
def runCommand (detail : Bool) (c : Command) (top : Path) (disk : Disk) : IO UInt32 := do
  let (outcome, session) := (c.onWorkspace top.text).run ⟨top, []⟩ disk
  printEvents detail session.events
  (disk.edits session.disk).forM apply
  IO.print (String.ofList outcome.output)
  if let some failure := outcome.failure then IO.eprintln (String.ofList failure.message)
  return UInt32.ofNat outcome.exitCode

/-- Explains the commands on the error stream. -/
def refuse : IO UInt32 := do
  IO.eprint (String.ofList (Client.unlines Command.usageLines))
  return UInt32.ofNat Outcome.misuse.exitCode

def start (arguments : List Text) : IO UInt32 := do
  match Command.ofArguments? arguments with
  | none => refuse
  | some c =>
    match ← (readDisk (c.workspaceText?.getD ['.'])).toBaseIO with
    | .ok (top, disk) => runCommand (Command.wantsDetail arguments) c top disk
    | .error _ => refuse

end NestClient.Program

/-- The program: its exit code tells how the command ended. -/
def main (args : List String) : IO UInt32 := NestClient.Program.start (args.map String.toList)
