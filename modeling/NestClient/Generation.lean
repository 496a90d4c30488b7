import NestClient.Client.Manifest
import NestClient.Extract.Endpoints
import NestClient.Project

/-! The work on a workspace as a whole: finding the endpoints of its controllers, and writing a client
for each of them. -/

namespace NestClient

/-! ## Analysis -/

/-- A controller with the endpoints that its client offers. -/
structure Plan where
  group : EndpointGroup
  endpoints : List Endpoint
  deriving DecidableEq, Repr

structure Analysis where
  apiPrefix : Text
  filesScanned : Nat
  skippedFiles : List Text
  controllersFound : Nat
  plans : List Plan
  deriving DecidableEq, Repr

/-- The plan of a controller, unless it has no endpoints. -/
def Extractor.plan? (x : Extractor) (c : Controller) : Option Plan :=
  let endpoints := x.extract c
  if endpoints.isEmpty then none else some ⟨c.group, endpoints⟩

def Extractor.planEvents (x : Extractor) (c : Controller) : List Event :=
  x.events c ++ if (x.extract c).isEmpty then [.controllerEmpty c.group.name] else []

def Project.analyze (project : Project) (config : Config) (constants : Constants) : Analysis :=
  let apiPrefix := resolvePrefix config constants
  let controllers := discover project.files config apiPrefix constants
  let x : Extractor := { config, apiPrefix, constants }
  { apiPrefix
    filesScanned := project.files.length + project.skipped.length
    skippedFiles := project.skipped
    controllersFound := controllers.length
    plans := controllers.filterMap x.plan? }

def Project.analysisEvents (project : Project) (config : Config) (constants : Constants) :
    List Event :=
  let apiPrefix := resolvePrefix config constants
  let controllers := discover project.files config apiPrefix constants
  let x : Extractor := { config, apiPrefix, constants }
  prefixEvents config constants ++ [.usingPrefix apiPrefix] ++ controllers.map Controller.found
    ++ controllers.flatMap x.planEvents

/-- Finds the endpoints of a workspace. -/
def analyze (root : Path) (config : Config) : Action Analysis := do
  let project ← Project.load root config
  let constants ← Project.sharedConstants root config
  Action.report (project.analysisEvents config constants)
  return project.analyze config constants

/-! ## Writing -/

/-- Writes a text, with the directories that lead to it. -/
def writeText (p : Path) (contents : Text) : Action Unit := do
  Action.change (DiskChange.ensureDirectories p.parent)
  Action.change (DiskChange.writeBytes p (Utf8.encode contents))

/-- Empties a directory, which is made if it is missing, and tells how many entries it had. -/
def emptyDirectory (p : Path) : Action Nat := Action.change (DiskChange.emptyDirectory p)

/-- Empties a directory and writes files below it. The answer is where they are. -/
def synchronize (directory : Path) (files : List GeneratedFile) : Action (List Path) := do
  let removed ← emptyDirectory directory
  Action.report [.directoryEmptied directory.text removed]
  files.mapM fun f => do
    let target := directory.append (.ofText f.path)
    writeText target f.contents
    Action.report [.fileWritten target.text]
    return target

/-! ## Generation -/

structure Generation where
  apiPrefix : Text
  filesScanned : Nat
  skippedFiles : List Text
  controllersFound : Nat
  clients : List ClientDescriptor
  written : List Text
  outputDir : Text
  manifestPath : Text
  deriving DecidableEq, Repr

/-- The client of a plan and its description. -/
def Plan.render (config : Config) (plan : Plan) : Action (GeneratedFile × ClientDescriptor) := do
  match Client.render config plan.group plan.endpoints with
  | .ok f =>
    Action.report [.clientGenerated f.path plan.endpoints.length]
    return (f, Client.describe config f plan.endpoints.length)
  | .error e => throw (.render e)

/-- Writes a client for every controller of a workspace, in place of all files of the output
directory, and the manifest. -/
def generate (root : Path) (config : Config) : Action Generation := do
  let analysis ← analyze root config
  let rendered ← analysis.plans.mapM (Plan.render config)
  let clients := rendered.map (·.2)
  let output := config.outputPath root
  let written ← synchronize output (rendered.map (·.1))
  let manifest := config.manifestFile root
  writeText manifest (Client.renderManifest config clients)
  Action.report [.manifestGenerated manifest.text clients.length]
  return {
    apiPrefix := analysis.apiPrefix
    filesScanned := analysis.filesScanned
    skippedFiles := analysis.skippedFiles
    controllersFound := analysis.controllersFound
    clients
    written := ← written.mapM fun p => Action.relative p root
    outputDir := ← Action.relative output root
    manifestPath := ← Action.relative manifest root }

end NestClient
