import NestClient.Client.Url
import NestClient.Text.Identifier

/-! A method of a client: its signature, its query parameters and the call that it makes. -/

namespace NestClient.Client

/-- A query parameter in the method's body; without a key the whole object is spread. -/
structure QueryEntry where
  name : Text
  key : Option Text
  deriving DecidableEq, Repr

/-- What the text of a method consists of. Each parameter comes with the word for its role. -/
structure Method where
  name : Text
  verb : Verb
  route : Text
  signature : Text
  returnType : Text
  url : Text
  parameters : List (Text × Text)
  query : List QueryEntry
  callArguments : List Text
  deriving DecidableEq, Repr

def roleLabel : Role → Text
  | .path => "Param".toList
  | .query => "Query".toList
  | .body => "Body".toList
  | .ignored => []

/-- The body of a request: the parameter itself, or an object with the one field that it is bound
to. -/
def bodyExpression (p : Parameter) : Text :=
  match p.key with
  | none => p.name
  | some key =>
    let field := if Text.isNameLine key then key else stringLiteral key
    "\x7b ".toList ++ field ++ ": ".toList ++ p.name ++ " \x7d".toList

/-- The parameters as the signature declares them. One with `?` cannot precede a required one, so
an optional one in that place gets `undefined` for a member of its type. -/
def declareParameters : List Parameter → List Text
  | [] => []
  | p :: later =>
    let declared :=
      if !p.optional then p.name ++ ": ".toList ++ p.type.expression
      else if later.any (!·.optional) then
        p.name ++ ": ".toList ++ p.type.expression ++ " | undefined".toList
      else p.name ++ "?: ".toList ++ p.type.expression
    declared :: declareParameters later

/-- The text between the parentheses of the method. -/
def signature (e : Endpoint) : Text :=
  Text.join ", ".toList (declareParameters e.clientParameters)

/-- The options of a request: query parameters, and the body of a verb that has no place for it. -/
def requestOptions (e : Endpoint) : List Text :=
  let body :=
    match e.bodyParameter with
    | some p => if e.verb.takesBody then [] else ["body: ".toList ++ bodyExpression p]
    | none => []
  if (e.withRole .query).isEmpty then body else "params".toList :: body

/-- The arguments of the call: the URL, the body for a verb that takes one, and the options. -/
def callArguments (e : Endpoint) : List Text :=
  let body :=
    if e.verb.takesBody then
      [match e.bodyParameter with
        | some p => bodyExpression p
        | none => "\x7b\x7d".toList]
    else []
  let options := requestOptions e
  let optionsArgument :=
    if options.isEmpty then []
    else ["\x7b ".toList ++ Text.join ", ".toList options ++ " \x7d".toList]
  "url".toList :: body ++ optionsArgument

def Method.ofEndpoint (e : Endpoint) : Method :=
  { name := e.methodName
    verb := e.verb
    route := e.route
    signature := Client.signature e
    returnType := e.returnType.expression
    url := urlExpression e
    parameters := e.clientParameters.map fun p => (p.name, roleLabel p.role)
    query := (e.withRole .query).map fun p => ⟨p.name, p.key⟩
    callArguments := Client.callArguments e }

end NestClient.Client
