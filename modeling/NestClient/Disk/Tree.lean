import NestClient.Text.Basic

/-! A tree of directories, files and symbolic links, as a table from locations to what stands there.
The top directory is no entry of its own. -/

namespace NestClient

/-- The names on the way from the top of a disk. -/
abbrev Location := List Text

/-- What stands at a location. -/
inductive Entry where
  | directory
  | file (bytes : List UInt8)
  | link (target : Text)
  deriving DecidableEq, Repr

/-- As much of a disk as is known, from the root on. -/
structure Disk where
  entries : List (Location × Entry) := []
  deriving DecidableEq, Repr

namespace Disk

/-- The entry at a location; the top is a directory. -/
def get? (d : Disk) (l : Location) : Option Entry :=
  if l.isEmpty then some .directory else d.entries.lookup l

/-- The disk without the entry at a location and all below it. -/
def erase (d : Disk) (l : Location) : Disk :=
  ⟨d.entries.filter fun e => !l.isPrefixOf e.1⟩

/-- The disk without anything below a location. -/
def clear (d : Disk) (l : Location) : Disk :=
  ⟨d.entries.filter fun e => !(l.isPrefixOf e.1 && e.1 ≠ l)⟩

/-- The disk with an entry in the place of the one at a location, if there is one. -/
def put (d : Disk) (l : Location) (e : Entry) : Disk :=
  if (d.entries.lookup l).isSome then
    ⟨d.entries.map fun old => if old.1 = l then (l, e) else old⟩
  else ⟨d.entries ++ [(l, e)]⟩

/-- The names of the entries right below a location. -/
def children (d : Disk) (l : Location) : List Text :=
  d.entries.filterMap fun e =>
    match l.isPrefixOf? e.1 with
    | some [name] => some name
    | some _ | none => none

/-- The directories below a location that no link leads to, each by the names from there. -/
def directoriesBelow (d : Disk) (l : Location) : List Location :=
  d.entries.filterMap fun e =>
    match l.isPrefixOf? e.1, e.2 with
    | some (name :: names), .directory => some (name :: names)
    | _, _ => none

/-- What lies below a location, as a disk of its own. -/
def below (d : Disk) (l : Location) : Disk :=
  ⟨d.entries.filterMap fun e =>
    match l.isPrefixOf? e.1 with
    | some (name :: names) => some (name :: names, e.2)
    | some [] | none => none⟩

end Disk

end NestClient
