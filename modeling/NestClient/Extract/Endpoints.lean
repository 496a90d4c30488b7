import NestClient.Extract.Controller
import NestClient.Route.Internal
import NestClient.TypeText.Resolve

/-! The endpoints of a controller: one for each method that a verb decorates. -/

namespace NestClient

def Verb.ofDecorator? (name : Text) : Option Verb :=
  if name = "Get".toList then some .get
  else if name = "Post".toList then some .post
  else if name = "Put".toList then some .put
  else if name = "Patch".toList then some .patch
  else if name = "Delete".toList then some .delete
  else none

/-- The first decorator that names a verb. -/
def MethodDecl.verb? (m : MethodDecl) : Option (Decorator × Verb) :=
  m.decorators.findSome? fun d => (Verb.ofDecorator? d.name).map (d, ·)

def Config.resolver (config : Config) : TypeText.Resolver :=
  { isShared := config.isSharedModule, dtoSuffix := config.dtoSuffix }

/-- The route of an endpoint relative to the base URL: without internal parts and without the
prefix of all routes. -/
def routeTemplate (config : Config) (apiPrefix basePath route : Text) : Text :=
  Route.dropPrefix (Route.dropInternal (Route.join [basePath, route]) config.internalPathKeys)
    (Route.trimSlashes apiPrefix)

/-! ## Parameters -/

/-- A declared parameter, its classification, and why it is dropped if it is a body too many. -/
structure BoundParameter where
  declaration : ParameterDecl
  classification : Classification
  dropped : Option DroppedBody := none
  deriving DecidableEq, Repr

namespace BoundParameter

/-- The role that remains. -/
def role (p : BoundParameter) : Role :=
  if p.dropped.isSome then .ignored else p.classification.role

/-- The report of a parameter that does not reach the client. -/
def event? (p : BoundParameter) (controller method : Text) : Option Event :=
  match p.dropped with
  | some reason => some (.bodyDropped controller method p.declaration.name reason)
  | none =>
    p.classification.reason.map (.parameterIgnored controller method p.declaration.name)

def toParameter (p : BoundParameter) (resolver : TypeText.Resolver) (available : List Text) :
    Parameter :=
  { name := p.declaration.name
    type := resolver.resolve p.classification.type available
    role := p.role
    key := p.classification.key
    optional := p.classification.optional }

end BoundParameter

/-- Why a body parameter cannot be the request's body. -/
def droppedBody? (verb : Verb) (hasBody : Bool) : Option DroppedBody :=
  if verb = .get then some .getHasNoBody
  else if hasBody then some .secondBody
  else none

/-- Classifies parameters in order. Only the first body counts, and none does in a `GET`. -/
def bindParameters (verb : Verb) (internalKeys : List Text) (cs : Constants) (hasBody : Bool) :
    List ParameterDecl → List BoundParameter
  | [] => []
  | p :: rest =>
    let c := classify p internalKeys cs
    let dropped := if c.role = .body then droppedBody? verb hasBody else none
    let bound : BoundParameter := ⟨p, c, dropped⟩
    bound :: bindParameters verb internalKeys cs (hasBody || bound.role = .body) rest

/-! ## Endpoints -/

/-- What the methods of a project's controllers are read with. -/
structure Extractor where
  config : Config
  apiPrefix : Text
  constants : Constants := []

namespace Extractor

/-- The prefix without slashes at its ends. -/
def routePrefix (x : Extractor) : Text := Route.trimSlashes x.apiPrefix

def boundParameters (x : Extractor) (c : Controller) (m : MethodDecl) (verb : Verb) :
    List BoundParameter :=
  bindParameters verb x.config.internalPathKeys (c.source.knownConstants x.constants) false
    m.parameters

def endpoint (x : Extractor) (c : Controller) (m : MethodDecl) (d : Decorator) (verb : Verb) :
    Endpoint :=
  let available := c.source.importedFrom x.config.isSharedModule
  let route := routeArgument (some d) x.routePrefix x.config.prefixConstant
    (c.source.knownConstants x.constants)
  let returnType := x.config.resolver.resolve m.returnType available
  let parameters := (x.boundParameters c m verb).map (·.toParameter x.config.resolver available)
  { methodName := m.name
    verb
    route := routeTemplate x.config x.routePrefix c.group.basePath route
    parameters
    returnType
    imports := Text.distinct (returnType.imports
      ++ (parameters.filter (·.role ≠ .ignored)).flatMap (·.type.imports)) }

/-- The endpoints of a controller in the order of its methods. -/
def extract (x : Extractor) (c : Controller) : List Endpoint :=
  c.declaration.methods.filterMap fun m => m.verb?.map fun (d, verb) => x.endpoint c m d verb

def events (x : Extractor) (c : Controller) : List Event :=
  c.declaration.methods.flatMap fun m =>
    match m.verb? with
    | none => []
    | some (_, verb) => (x.boundParameters c m verb).filterMap (·.event? c.group.name m.name)

end Extractor

end NestClient
