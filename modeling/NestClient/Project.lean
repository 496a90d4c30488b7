import NestClient.Session
import NestClient.Source

/-! The project of a workspace: the models of all files that its patterns match. A file that has no
model is passed over with a warning. -/

namespace NestClient

structure Project where
  root : Path
  configPath : Path
  files : List SourceFile := []
  /-- The files passed over, by their paths from the root. -/
  skipped : List Text := []
  deriving DecidableEq, Repr

namespace Project

def readFile (root p : Path) : Action (Except SourceProblem SourceFile) := do
  let d ← Action.disk
  let bytes := (d.bytesAt? p).getD []
  match Utf8.decode bytes with
  | .error fault => return .error (.undecodable fault)
  | .ok _ =>
    let name ← Action.relative ((d.resolve p).toOption.getD p) root
    return SourceFile.ofBytes name bytes

/-- Adds the model of a file, or passes it over. -/
def addFile (project : Project) (p : Path) : Action Project := do
  match ← readFile project.root p with
  | .ok f => return { project with files := project.files ++ [f] }
  | .error problem =>
    Action.report [.fileSkipped (problem.message p.text)]
    let name ← Action.relative p project.root
    return { project with skipped := project.skipped ++ [name] }

def load (root : Path) (config : Config) : Action Project := do
  let d ← Action.disk
  let configPath := root.append (.ofText config.tsconfigPath)
  if !d.isFile configPath then throw (.configMissing configPath)
  Action.report [.projectLoaded configPath.text]
  match d.scan root config.controllerGlobs config.ignoredDirs with
  | .error problem => throw (.pattern problem)
  | .ok paths => paths.foldlM addFile { root, configPath }

/-- The model of one more file of a workspace, if it is there and has one. -/
def loadFile (root : Path) (file : Text) : Action (Option SourceFile) := do
  let p := root.append (.ofText file)
  if !(← Action.disk).isFile p then return none
  else
    match ← readFile root p with
    | .ok f => return some f
    | .error problem =>
      Action.report [.fileUnusable (problem.message p.text)]
      return none

def sharedConstants (root : Path) (config : Config) : Action Constants := do
  return ((← loadFile root config.constantsFile).map SourceFile.constants).getD []

end Project

end NestClient
