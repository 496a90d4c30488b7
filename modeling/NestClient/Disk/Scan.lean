import NestClient.Disk.Lookup
import NestClient.Disk.Pattern

/-! The files of a workspace that patterns match. -/

namespace NestClient

/-! ## Matches of a pattern -/

/-- The names from a workspace on that steps lead to. Every name but the last has to be that of a
directory; `**` passes through no link. -/
def Disk.matchesFrom (d : Disk) (root : Path) (directoriesOnly : Bool) :
    List PatternStep → List Text → List (List Text)
  | [], names => [names]
  | step :: more, names =>
    let directory := directoriesOnly || !more.isEmpty
    let at_ (below : List Text) : Path := root.append ⟨.here, below⟩
    let fits (below : List Text) : Bool :=
      if directory then d.isDirectory (at_ below) else d.holds (at_ below)
    match step with
    | .up => d.matchesFrom root directoriesOnly more (names ++ ["..".toList])
    | .exactly name =>
      if fits (names ++ [name]) then d.matchesFrom root directoriesOnly more (names ++ [name])
      else []
    | .like parts =>
      match d.directoryAt? (at_ names) with
      | none => []
      | some l =>
        let named := (d.children l).filter fun name =>
          NamePart.matchName parts name && (!directory || d.isDirectory (at_ (names ++ [name])))
        named.flatMap fun name => d.matchesFrom root directoriesOnly more (names ++ [name])
    | .anyDepth =>
      match d.directoryAt? (at_ names) with
      | none => []
      | some l =>
        (names :: (d.directoriesBelow l).map (names ++ ·)).flatMap fun below =>
          d.matchesFrom root directoriesOnly more below

/-- The names from a workspace on that a pattern matches. -/
def Disk.matches (d : Disk) (root : Path) (p : PathPattern) : List (List Text) :=
  if d.isDirectory root then d.matchesFrom root p.directoriesOnly p.steps [] else []

/-! ## Scanning -/

/-- The file that matched names lead to, unless one of their directories is ignored. -/
def Disk.scanned? (d : Disk) (root : Path) (ignores : List Text) (names : List Text) :
    Option Path :=
  let p := root.append ⟨.here, names⟩
  if d.isFile p && !(⟨.here, names⟩ : Path).underIgnored ignores then (d.resolve p).toOption
  else none

/-- The order of paths as written. -/
def Path.le (p q : Path) : Bool := Text.le p.text q.text

/-- The files that patterns match, each once, in the order of their paths. -/
def Disk.scan (d : Disk) (root : Path) (patterns ignores : List Text) :
    Except PatternProblem (List Path) := do
  let read ← patterns.mapM PathPattern.ofText
  let found := (read.flatMap (d.matches root)).filterMap (d.scanned? root ignores)
  return Text.sortBy Path.le (Text.distinct found)

end NestClient
