import NestClient.Text.Template

/-! What a TypeScript file declares, as far as its controllers depend on it: imports, classes with
their decorators and methods, and string constants. -/

namespace NestClient

/-- The form of an expression passed to a decorator. -/
inductive ArgumentKind where
  | string
  | template
  | identifier
  | member
  | object
  /-- Any other form, by its name in the grammar. -/
  | other (name : Text)
  deriving DecidableEq, Repr

namespace ArgumentKind

def name : ArgumentKind → Text
  | string => "string".toList
  | template => "template_string".toList
  | identifier => "identifier".toList
  | member => "member_expression".toList
  | object => "object".toList
  | other name => name

def ofName (name : Text) : ArgumentKind :=
  match [string, template, identifier, member, object].find? (·.name = name) with
  | some kind => kind
  | none => other name

end ArgumentKind

/-- An argument of a decorator: its source text, the text inside the quotes of a literal, and the
properties of an object literal with those values that are literals. -/
structure Argument where
  kind : ArgumentKind
  text : Text := []
  value : Option Text := none
  properties : List (Text × Option Text) := []
  deriving DecidableEq, Repr

/-- The literal of the first property with this key. -/
def Argument.property (a : Argument) (key : Text) : Option Text :=
  (a.properties.lookup key).join

structure Decorator where
  name : Text
  arguments : List Argument := []
  deriving DecidableEq, Repr

/-- An import statement; a named import is the imported name and the local one. -/
structure ImportDecl where
  specifier : Text
  named : List (Text × Text) := []
  namespaceName : Option Text := none
  defaultName : Option Text := none
  deriving DecidableEq, Repr

/-- A parameter of a method. Its type names the modules of imported types; where no type is
declared, the text is empty. -/
structure ParameterDecl where
  name : Text
  decorators : List Decorator := []
  type : Text := []
  rawType : Text := []
  question : Bool := false
  initializer : Bool := false
  deriving DecidableEq, Repr

structure MethodDecl where
  name : Text
  decorators : List Decorator := []
  parameters : List ParameterDecl := []
  returnType : Text := []
  rawReturnType : Text := []
  line : Nat := 1
  deriving DecidableEq, Repr

structure ClassDecl where
  name : Text
  decorators : List Decorator := []
  methods : List MethodDecl := []
  line : Nat := 1
  deriving DecidableEq, Repr

/-- The first decorator of a name. -/
def ClassDecl.decorator (c : ClassDecl) (name : Text) : Option Decorator :=
  c.decorators.find? (·.name = name)

/-- The model of one file. `namespaceRefs` holds the module and the name of each type reached
through a namespace import. -/
structure SourceFile where
  path : Text
  imports : List ImportDecl := []
  classes : List ClassDecl := []
  constants : Constants := []
  namespaceRefs : List (Text × Text) := []
  deriving DecidableEq, Repr

/-- The names that the file takes from modules of a class: by their names there, not their local
ones. -/
def SourceFile.importedFrom (f : SourceFile) (isShared : Text → Bool) : List Text :=
  Text.distinct
    ((f.imports.filter fun i => isShared i.specifier).flatMap (fun i => i.named.map (·.1))
      ++ (f.namespaceRefs.filter fun ref => isShared ref.1).map (·.2))

end NestClient
