import NestClient.Client.Source
import NestClient.Disk.Change
import NestClient.Disk.Scan
import NestClient.Event

/-! A run in progress: the disk it works on and what it has reported. A run that fails keeps both as
they were when it did. -/

namespace NestClient

/-- Why a run fails. -/
inductive Failure where
  /-- The workspace has no TypeScript configuration at this path. -/
  | configMissing (path : Path)
  | pattern (problem : PatternProblem)
  /-- A file or directory lies outside of the workspace. -/
  | outside (path root : Path)
  /-- Nobody knows the home directory that a path begins at. -/
  | homeUnknown
  /-- The links on the way of a path lead in a circle. -/
  | linkLoop (path : Path)
  | disk (fault : DiskFault)
  | render (error : Client.RenderError)
  deriving DecidableEq, Repr

def Failure.message : Failure → Text
  | configMissing path => "TypeScript project configuration not found: ".toList ++ path.text
  | pattern problem => problem.message
  | outside path root =>
    Text.quoted path.text ++ " is not in the subpath of ".toList ++ Text.quoted root.text
      ++ " OR one path is relative and the other is absolute.".toList
  | homeUnknown => "Could not determine home directory.".toList
  | linkLoop path => "Symlink loop from ".toList ++ Text.quoted path.text
  | disk fault => fault.message
  | render error => error.message

structure Session where
  disk : Disk
  events : List Event := []
  deriving DecidableEq, Repr

/-- A step of a run: it changes the session and gives a value or fails. -/
abbrev Action (α : Type) := ExceptT Failure (StateM Session) α

namespace Action

def disk : Action Disk := do return (← get).disk

def report (events : List Event) : Action Unit :=
  modify fun s => { s with events := s.events ++ events }

/-- Changes the disk, as far as the change gets. -/
def change {α : Type} (c : DiskChange α) : Action α := do
  let (result, d) := c.run.run (← disk)
  modify fun s => { s with disk := d }
  match result with
  | .ok a => return a
  | .error fault => throw (.disk fault)

/-- A path below the workspace as its names from there. -/
def relative (p root : Path) : Action Text := do
  match p.relativeTo? root with
  | some below => return below.text
  | none => throw (.outside p root)

/-- Runs an action on a disk. -/
def start {α : Type} (a : Action α) (d : Disk) : Except Failure α × Session :=
  a.run.run ⟨d, []⟩

end Action

end NestClient
