import NestClient.Config
import NestClient.Event
import NestClient.Route.Basic

/-! Controllers: classes that carry the `Controller` decorator, and the base path it gives them. -/

namespace NestClient

def controllerDecorator : Text := "Controller".toList

/-- A controller of a project: the class, its file and what its client is generated for. -/
structure Controller where
  group : EndpointGroup
  declaration : ClassDecl
  source : SourceFile
  deriving DecidableEq, Repr

/-! ## The prefix of all routes -/

/-- The route prefix that the constants give, if they give one. -/
def declaredPrefix? (config : Config) (cs : Constants) : Option Text :=
  match cs.get? config.prefixConstant with
  | some value => if value.isEmpty then none else some value
  | none => none

/-- The route prefix, with the configured one to fall back on. -/
def resolvePrefix (config : Config) (cs : Constants) : Text :=
  Route.trimSlashes ((declaredPrefix? config cs).getD config.defaultApiPrefix)

def prefixEvents (config : Config) (cs : Constants) : List Event :=
  if (declaredPrefix? config cs).isSome then []
  else [.prefixMissing config.prefixConstant config.constantsFile config.defaultApiPrefix]

/-! ## The base path -/

/-- The route fragment that the first argument of a decorator gives: a literal, a template, a known
constant, or the `path` of an object. Holes of a template that no constant fills are kept. -/
def routeArgument (d : Option Decorator) (apiPrefix prefixConstant : Text) (cs : Constants) : Text :=
  match d.bind (·.arguments.head?) with
  | none => []
  | some a =>
    let known := cs ++ [(prefixConstant, apiPrefix)]
    match a.kind with
    | .template => Template.fillConstants known (a.value.getD [])
    | .object => Template.fillConstants known ((a.property "path".toList).getD [])
    | .string | .identifier | .member | .other _ => (a.staticText known).getD []

/-- The folder for a controller's client: that of its file under the controllers' root, without the
skipped segments. -/
def controllerFolder (file : Text) (config : Config) : Text :=
  let folder := (Path.ofText file).parent
  let below := (folder.relativeTo? (.ofText config.controllersRoot)).getD folder
  Text.join ['/'] (below.parts.filter fun part => !config.skippedFolderSegments.contains part)

/-! ## Discovery -/

/-- The constants known inside a file, its own ones first. -/
def SourceFile.knownConstants (f : SourceFile) (shared : Constants) : Constants :=
  shared ++ f.constants

/-- The controller of a file: its first class with the decorator. -/
def SourceFile.controller? (f : SourceFile) (config : Config) (apiPrefix : Text)
    (shared : Constants) : Option Controller :=
  (f.classes.find? fun c => (c.decorator controllerDecorator).isSome).map fun c =>
    let basePath := routeArgument (c.decorator controllerDecorator) apiPrefix config.prefixConstant
      (f.knownConstants shared)
    { group :=
        { name := c.name, basePath, sourceFile := f.path, folder := controllerFolder f.path config }
      declaration := c
      source := f }

/-- The controllers of a project in the order of its files. -/
def discover (files : List SourceFile) (config : Config) (apiPrefix : Text) (shared : Constants) :
    List Controller :=
  files.filterMap fun f => f.controller? config apiPrefix shared

def Controller.found (c : Controller) : Event :=
  .controllerFound c.group.name c.group.basePath c.group.sourceFile

end NestClient
