import NestClient.Text.Basic

/-! The domain: the endpoints of a controller, the types and parameters of their client methods, and
the files generated from them. -/

namespace NestClient

/-- A client-side type and the symbols it needs from the shared types module. -/
structure ResolvedType where
  expression : Text
  imports : List Text := []
  deriving DecidableEq, Repr

/-- The type that says nothing. -/
def ResolvedType.any : ResolvedType := ⟨"any".toList, []⟩

inductive Verb where
  | get
  | post
  | put
  | patch
  | delete
  deriving DecidableEq, Repr

namespace Verb

def name : Verb → Text
  | get => "GET".toList
  | post => "POST".toList
  | put => "PUT".toList
  | patch => "PATCH".toList
  | delete => "DELETE".toList

/-- The verb as the client's method for it is called. -/
def methodName : Verb → Text
  | get => "get".toList
  | post => "post".toList
  | put => "put".toList
  | patch => "patch".toList
  | delete => "delete".toList

/-- The request always carries a body. -/
def takesBody : Verb → Bool
  | post | put | patch => true
  | get | delete => false

end Verb

/-- Where the value of a parameter travels in a request. -/
inductive Role where
  | path
  | query
  | body
  | ignored
  deriving DecidableEq, Repr

/-- A parameter of an endpoint. A query or body parameter without a key stands for the whole
object. -/
structure Parameter where
  name : Text
  type : ResolvedType
  role : Role
  key : Option Text := none
  optional : Bool := false
  deriving DecidableEq, Repr

/-- One operation of a controller. Its route is relative to the base URL, with `:key`
placeholders. -/
structure Endpoint where
  methodName : Text
  verb : Verb
  route : Text
  parameters : List Parameter := []
  returnType : ResolvedType
  imports : List Text := []
  deriving DecidableEq, Repr

namespace Endpoint

/-- The parameters that the client method takes. -/
def clientParameters (e : Endpoint) : List Parameter :=
  e.parameters.filter (·.role ≠ .ignored)

def withRole (e : Endpoint) (role : Role) : List Parameter :=
  e.parameters.filter (·.role = role)

theorem mem_withRole {e : Endpoint} {p : Parameter} {role : Role} :
    p ∈ e.withRole role ↔ p ∈ e.parameters ∧ p.role = role := by
  rw [withRole, List.mem_filter, decide_eq_true_eq]

def bodyParameter (e : Endpoint) : Option Parameter := (e.withRole .body).head?

end Endpoint

/-- A controller: its class, its base path, the workspace path of its file, and the folder for the
client generated from it. -/
structure EndpointGroup where
  name : Text
  basePath : Text
  sourceFile : Text
  folder : Text := []
  deriving DecidableEq, Repr

/-- A file to be written below the output directory. -/
structure GeneratedFile where
  path : Text
  contents : Text
  className : Text := []
  deriving DecidableEq, Repr

/-- What the manifest says of one client. -/
structure ClientDescriptor where
  className : Text
  importPath : Text
  endpointCount : Nat := 0
  deriving DecidableEq, Repr

end NestClient
