import NestClient.Disk.Tree

/-! The steps from one state of a disk to another, for whoever keeps the disk in a place of its own. -/

namespace NestClient

/-- One step of a change from a disk to another. -/
inductive Edit where
  /-- Takes away what stands at a location, with all below it. -/
  | remove (l : Location)
  | makeDirectory (l : Location)
  | write (l : Location) (bytes : List UInt8)
  deriving DecidableEq, Repr

/-- Two entries of one kind, whatever they hold. -/
def Entry.sameKind : Entry → Entry → Bool
  | .directory, .directory | .file _, .file _ | .link _, .link _ => true
  | .directory, _ | .file _, _ | .link _, _ => false

namespace Disk

/-- The locations of a disk at which another one has nothing of the same kind. -/
def lostTo (old new : Disk) : List Location :=
  (old.entries.filter fun (l, e) => !(new.get? l).any e.sameKind).map (·.1)

/-- The locations of a list that lie below no other one of it. -/
def outermost (ls : List Location) : List Location :=
  ls.filter fun l => !ls.any fun m => m.isPrefixOf l && m ≠ l

/-- The step that brings an entry about. A link is left to whoever made it. -/
def placing (l : Location) : Entry → Option Edit
  | .directory => some (.makeDirectory l)
  | .file bytes => some (.write l bytes)
  | .link _ => none

/-- The steps from a disk to another: what is lost goes first, and directories come before what is
in them. -/
def edits (old new : Disk) : List Edit :=
  (outermost (old.lostTo new)).map .remove
    ++ (new.entries.filter fun (l, e) => old.get? l ≠ some e).filterMap fun (l, e) => placing l e

end Disk

end NestClient
