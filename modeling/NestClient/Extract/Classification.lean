import NestClient.Declaration
import NestClient.Endpoint
import NestClient.Text.Identifier
import NestClient.TypeText.Missing

/-! The role that a declared parameter plays in the client, read off its decorators. -/

namespace NestClient

/-! ## Arguments of decorators -/

/-- The text that an argument has before the program runs: a literal, a template whose holes all
name constants, or the name of a constant. -/
def Argument.staticText (a : Argument) (cs : Constants) : Option Text :=
  match a.kind with
  | .string => a.value
  | .template =>
    let filled := Template.fillConstants cs (a.value.getD [])
    if (Template.holes filled).isEmpty then some filled else none
  | .identifier | .member => cs.get? (lastName a.text)
  | .object | .other _ => none

/-! ## Bindings -/

/-- What a decorator binds a parameter to. -/
inductive Binding where
  /-- A part of the request. -/
  | request (role : Role)
  /-- An object of the server. -/
  | server
  deriving DecidableEq, Repr

def Binding.ofName? (name : Text) : Option Binding :=
  if name = "Param".toList then some (.request .path)
  else if name = "Query".toList then some (.request .query)
  else if name = "Body".toList then some (.request .body)
  else if name = "Session".toList || name = "Req".toList || name = "Request".toList then
    some .server
  else none

def firstBinding (decorators : List Decorator) : Option (Decorator × Binding) :=
  decorators.findSome? fun d => (Binding.ofName? d.name).map (d, ·)

/-! ## Classification -/

/-- Why a parameter does not reach the client. -/
inductive IgnoreReason where
  | noBinding
  | serverContext (decorator : Text)
  | destructured
  | internalKey
  deriving DecidableEq, Repr

def IgnoreReason.text : IgnoreReason → Text
  | noBinding => "no binding decorator".toList
  | serverContext decorator => '@' :: decorator
  | destructured => "destructured parameter".toList
  | internalKey => "internal path key".toList

/-- The role of a parameter, its key in the request, and its type without the missing value. -/
structure Classification where
  role : Role
  key : Option Text
  optional : Bool
  type : Text
  reason : Option IgnoreReason := none
  deriving DecidableEq, Repr

/-- The key that the first argument of a binding decorator gives. -/
def bindingKey (d : Decorator) (cs : Constants) : Option Text :=
  match d.arguments.head? with
  | none => none
  | some a =>
    let key := Text.trim ((a.staticText cs).getD [])
    if key.isEmpty then none else some key

/-- Classifies a parameter. The first binding decorator decides; without one, with a server object,
with a pattern for a name or with an internal path key it is ignored. -/
def classify (p : ParameterDecl) (internalKeys : List Text) (cs : Constants) : Classification :=
  let (type, missing) := TypeText.stripMissing p.type
  let optional := p.question || p.initializer || missing
  let ignore (key : Option Text) (reason : IgnoreReason) : Classification :=
    { role := .ignored, key, optional, type, reason := some reason }
  match firstBinding p.decorators with
  | none => ignore none .noBinding
  | some (d, .server) => ignore none (.serverContext d.name)
  | some (d, .request role) =>
    if !Text.isNameLine p.name then ignore none .destructured
    else if role = .path then
      let key := (bindingKey d cs).getD p.name
      if internalKeys.contains key || internalKeys.contains p.name then
        ignore (some key) .internalKey
      else { role, key := some key, optional, type }
    else { role, key := bindingKey d cs, optional, type }

end NestClient
