import NestClient.Disk.Tree
import NestClient.Path.Lexical
import NestClient.Path.Basic

/-! What a path leads to on a disk: names are followed one by one, `..` leads up, and links lead to
their targets. -/

namespace NestClient

/-! ## Following a path -/

/-- Where a way through a disk ends. -/
inductive Destination where
  | found (l : Location) (e : Entry)
  /-- The directory is there, but no entry of this name. -/
  | absent (directory : Location) (name : Text)
  /-- A directory on the way is missing. -/
  | lost
  /-- The way goes on through something that is no directory. -/
  | blocked
  /-- Too many links. -/
  | entangled
  deriving DecidableEq, Repr

/-- A way up to its first link. -/
inductive Stretch where
  | ends (d : Destination)
  | atLink (directory : Location) (target : Text) (rest : List Text)

/-- Where the names in the target of a link begin, given the directory of the link. -/
def linkStart (directory : Location) (target : Text) : Location :=
  if target.head? = some '/' then [] else directory

/-- How many links a way may lead through. -/
def maxLinks : Nat := 40

namespace Disk

/-- Follows names from a directory; a link at the very end is an entry unless it is followed too.
Above the root there is nothing but the root. -/
def stretch (d : Disk) (followLast : Bool) (l : Location) : List Text → Stretch
  | [] => .ends (.found l .directory)
  | name :: rest =>
    if name = ['.', '.'] then stretch d followLast l.dropLast rest
    else
      match d.get? (l ++ [name]) with
      | none => .ends (if rest.isEmpty then .absent l name else .lost)
      | some .directory => stretch d followLast (l ++ [name]) rest
      | some (.file bytes) =>
        .ends (if rest.isEmpty then .found (l ++ [name]) (.file bytes) else .blocked)
      | some (.link target) =>
        if rest.isEmpty && !followLast then .ends (.found (l ++ [name]) (.link target))
        else .atLink l target rest

/-- Follows names through a number of links. -/
def follow (d : Disk) (followLast : Bool) : Nat → Location → List Text → Destination
  | 0, _, _ => .entangled
  | links + 1, l, names =>
    match d.stretch followLast l names with
    | .ends destination => destination
    | .atLink directory target rest =>
      follow d followLast links (linkStart directory target) (Path.namesOf target ++ rest)

/-- The destination of a path. One that does not begin at the root leads nowhere. -/
def reach (d : Disk) (followLast : Bool) (p : Path) : Destination :=
  if p.anchor = .here then .lost else d.follow followLast (maxLinks + 1) [] p.names

/-! ## What a path leads to -/

/-- The location and the entry that a path leads to, if there is one. -/
def find? (d : Disk) (p : Path) : Option (Location × Entry) :=
  match d.reach true p with
  | .found l e => some (l, e)
  | .absent .. | .lost | .blocked | .entangled => none

def holds (d : Disk) (p : Path) : Bool := (d.find? p).isSome

def bytesAt? (d : Disk) (p : Path) : Option (List UInt8) :=
  match d.find? p with
  | some (_, .file bytes) => some bytes
  | some (_, .directory) | some (_, .link _) | none => none

def isFile (d : Disk) (p : Path) : Bool := (d.bytesAt? p).isSome

/-- The location of the directory that a path leads to. -/
def directoryAt? (d : Disk) (p : Path) : Option Location :=
  match d.find? p with
  | some (l, .directory) => some l
  | some (_, .file _) | some (_, .link _) | none => none

def isDirectory (d : Disk) (p : Path) : Bool := (d.directoryAt? p).isSome

/-! ## Paths without links -/

/-- Follows names and takes those that are no links as they are, given how to enter a link: where it
leads, and whether all of that could be followed. The flag tells whether it went through to the end. -/
def resolveNames (d : Disk) (enter : Location → Location → Text → Location × Bool) (l : Location) :
    List Text → Location × Bool
  | [] => (l, true)
  | name :: rest =>
    if name = ['.', '.'] then resolveNames d enter l.dropLast rest
    else
      match d.get? (l ++ [name]) with
      | some (.link target) =>
        match enter (l ++ [name]) l target with
        | (reached, true) => resolveNames d enter reached rest
        | (stopped, false) => (stopped ++ rest, false)
      | some .directory | some (.file _) | none => resolveNames d enter (l ++ [name]) rest

/-- Follows names, links included, and stops at a link among those that are being followed already. The
depth bounds how many those are. -/
def resolveFrom (d : Disk) : Nat → List Location → Location → List Text → Location × Bool
  | 0, _, l, names => d.resolveNames (fun link _ _ => (link, false)) l names
  | depth + 1, busy, l, names =>
    d.resolveNames (fun link directory target =>
      if busy.contains link then (link, false)
      else
        resolveFrom d depth (link :: busy) (linkStart directory target) (Path.namesOf target)) l names

/-- The one path to what a path leads to that goes through no link, also where nothing is. Gives the
path at which links lead in a circle if they do. -/
def resolve (d : Disk) (p : Path) : Except Path Path :=
  let (l, _) := d.resolveFrom d.entries.length [] [] p.names
  let resolved : Path := ⟨.root, Path.normalNames true l⟩
  match d.reach true resolved with
  | .entangled => .error resolved
  | .found .. | .absent .. | .lost | .blocked => .ok resolved

end Disk

end NestClient
