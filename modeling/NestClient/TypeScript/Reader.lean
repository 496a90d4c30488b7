import NestClient.Declaration
import NestClient.TypeScript.Tree

/-! From the syntax tree of a file to the model of its declarations. The names of imported types are
replaced by references to their modules. -/

namespace NestClient.TypeScript

/-! ## Literals -/

/-- A quote of any kind. -/
def isQuoteMark (c : Char) : Bool := c = '\x27' || c = '"' || c = '\x60'

/-- The text between quotes; a text without them stands for itself. -/
def unquote (t : Text) : Text :=
  match Text.trim t with
  | [] => []
  | c :: rest =>
    if isQuoteMark c && rest.getLast? = some c then rest.dropLast else c :: rest

namespace Expr

/-- The text of a literal, seen through the forms that leave a value as it is. -/
def literal? : Expr → Option Text
  | string raw | template raw => some (unquote raw)
  | wrapped _ inner => inner.literal?
  | object _ | plain _ => none

def kind : Expr → ArgumentKind
  | string _ => .string
  | template _ => .template
  | object _ => .object
  | wrapped form _ | plain form => .ofName form.name

end Expr

/-! ## Decorators -/

def ArgumentNode.read (a : ArgumentNode) : Argument :=
  match a.expr with
  | .string _ => ⟨.string, a.source, some (unquote a.source), []⟩
  | .template _ => ⟨.template, a.source, some (unquote a.source), []⟩
  | .object pairs =>
    ⟨.object, a.source, none, pairs.map fun (key, value) => (unquote key, value.literal?)⟩
  | .wrapped .. | .plain _ => ⟨a.expr.kind, a.source, none, []⟩

/-- A decorator goes by the last name of what is applied. -/
def DecoratorNode.read (d : DecoratorNode) : Decorator :=
  ⟨lastName d.callee, d.arguments.map ArgumentNode.read⟩

/-! ## Imports -/

/-- The import that a statement declares. An import without alias keeps its name. -/
def ImportNode.read (i : ImportNode) : ImportDecl :=
  { specifier := unquote i.specifier
    named := i.named.map fun (name, local?) => (name, local?.getD name)
    namespaceName := i.namespaceName
    defaultName := i.defaultName }

/-- The local names that imports bind to a type: each with its module and its name there. The later
of two bindings counts. -/
def typeBindings (imports : List ImportDecl) : List (Text × Text × Text) :=
  (imports.flatMap fun i =>
    (i.named.map fun (name, localName) => (localName, i.specifier, name))
      ++ i.defaultName.toList.map fun name => (name, i.specifier, name)).reverse

/-- The local names that imports bind to a whole module. The later of two bindings counts. -/
def namespaceBindings (imports : List ImportDecl) : List (Text × Text) :=
  (imports.flatMap fun i => i.namespaceName.toList.map (·, i.specifier)).reverse

/-! ## Types -/

/-- A type of another module, as the text of a type refers to it. -/
def reference (module name : Text) : Text :=
  "import(\"".toList ++ module ++ "\").".toList ++ name

/-- The piece with an imported name replaced. -/
def TypePiece.qualify (imports : List ImportDecl) : TypePiece → Text
  | plain written => written
  | name written =>
    match (typeBindings imports).lookup written with
    | some (module, imported) => reference module imported
    | none => written
  | qualified space member written =>
    match (namespaceBindings imports).lookup space with
    | some module => reference module member
    | none => written

/-- The text of a type with every imported name replaced by a reference to its module. -/
def TypeSource.qualify (imports : List ImportDecl) (t : TypeSource) : Text :=
  t.flatMap (TypePiece.qualify imports)

/-- The type that a piece reaches through an imported namespace: its module and name. -/
def TypePiece.namespaceRef? (imports : List ImportDecl) : TypePiece → Option (Text × Text)
  | plain _ | name _ => none
  | qualified space member _ => ((namespaceBindings imports).lookup space).map (·, member)

/-- The types that a type reaches through imported namespaces, from right to left. -/
def TypeSource.namespaceRefs (imports : List ImportDecl) (t : TypeSource) : List (Text × Text) :=
  t.reverse.filterMap (TypePiece.namespaceRef? imports)

/-! ## Classes -/

def ParameterNode.read (imports : List ImportDecl) (p : ParameterNode) : ParameterDecl :=
  { name := p.pattern
    decorators := p.decorators.map DecoratorNode.read
    type := (p.type.map (·.qualify imports)).getD []
    rawType := (p.type.map TypeSource.text).getD []
    question := p.question
    initializer := p.initializer }

def MethodNode.read (imports : List ImportDecl) (decorators : List DecoratorNode)
    (m : MethodNode) : MethodDecl :=
  { name := m.name
    decorators := decorators.map DecoratorNode.read
    parameters := m.parameters.map (ParameterNode.read imports)
    returnType := (m.returnType.map (·.qualify imports)).getD []
    rawReturnType := (m.returnType.map TypeSource.text).getD []
    line := m.line }

/-- The methods of a class body, each with the decorators that have gathered before it and its own.
Comments change nothing; any other member lets go of the decorators. -/
def readMembers (imports : List ImportDecl) (gathered : List DecoratorNode) :
    List Member → List MethodDecl
  | [] => []
  | .decorator d :: rest => readMembers imports (gathered ++ [d]) rest
  | .comment :: rest => readMembers imports gathered rest
  | .method m :: rest =>
    m.read imports (gathered ++ m.decorators) :: readMembers imports [] rest
  | .other :: rest => readMembers imports [] rest

/-- A class with the decorators before its `export` and its own. -/
def ClassNode.read (imports : List ImportDecl) (outer : List DecoratorNode) (c : ClassNode) :
    ClassDecl :=
  { name := c.name.text
    decorators := (outer ++ c.decorators).map DecoratorNode.read
    methods := readMembers imports [] c.members
    line := c.line }

/-- The declared types of a method: those of its parameters, then the return type. -/
def MethodNode.types (m : MethodNode) : List TypeSource :=
  m.parameters.filterMap (·.type) ++ m.returnType.toList

def ClassNode.types (c : ClassNode) : List TypeSource :=
  c.members.flatMap fun member =>
    match member with
    | .method m => m.types
    | .decorator _ | .comment | .other => []

/-! ## Files -/

namespace Statement

def import? : Statement → Option ImportDecl
  | importing i => some i.read
  | classDecl .. | bindings _ | other => none

def class? (imports : List ImportDecl) : Statement → Option ClassDecl
  | classDecl outer c => some (c.read imports outer)
  | importing _ | bindings _ | other => none

/-- The variables whose values are literals. -/
def constants : Statement → Constants
  | bindings declared =>
    declared.filterMap fun (name, value) =>
      if name.isEmpty then none else (value.bind Expr.literal?).map (name, ·)
  | importing _ | classDecl .. | other => []

def types : Statement → List TypeSource
  | classDecl _ c => c.types
  | importing _ | bindings _ | other => []

end Statement

def readFile (path : Text) (statements : List Statement) : SourceFile :=
  let imports := statements.filterMap Statement.import?
  { path
    imports
    classes := statements.filterMap (·.class? imports)
    constants := statements.flatMap Statement.constants
    namespaceRefs := Text.distinct
      ((statements.flatMap Statement.types).flatMap (·.namespaceRefs imports)) }

end NestClient.TypeScript
