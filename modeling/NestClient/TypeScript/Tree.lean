import NestClient.TypeScript.Name

/-! The syntax tree of a source file, as deep as its declarations are looked at: imports, variables
with literal values, classes with their members, types as text with the names in it marked. -/

namespace NestClient.TypeScript

/-! ## Types -/

/-- A piece of the source of a type. -/
inductive TypePiece where
  /-- Source text that names no type. -/
  | plain (written : Text)
  /-- The name of a type. -/
  | name (written : Text)
  /-- A name in a namespace: `namespace.name`, as written between blanks or comments. -/
  | qualified (space name written : Text)
  deriving DecidableEq, Repr

def TypePiece.source : TypePiece → Text
  | plain written | name written => written
  | qualified _ _ written => written

/-- The source of a type, cut into pieces. -/
abbrev TypeSource := List TypePiece

def TypeSource.text (t : TypeSource) : Text := t.flatMap TypePiece.source

/-! ## Expressions -/

inductive Form where
  | identifier
  /-- A keyword that stands for a value. -/
  | keyword (word : Text)
  | number
  | regex
  | array
  | function
  | generator
  | arrow
  | classValue
  | metaProperty
  | member
  | subscript
  | call
  | nonNull
  | parenthesized
  | new
  | instantiation
  | update
  | unary
  | await
  | assertion
  | binary
  | cast
  | satisfies
  | conditional
  | assignment
  | augmentedAssignment
  | yield
  | namespaceValue
  | sequence
  | spread
  deriving DecidableEq, Repr

namespace Form

def name : Form → Text
  | identifier => "identifier".toList
  | keyword word => word
  | number => "number".toList
  | regex => "regex".toList
  | array => "array".toList
  | function => "function_expression".toList
  | generator => "generator_function".toList
  | arrow => "arrow_function".toList
  | classValue => "class".toList
  | metaProperty => "meta_property".toList
  | member => "member_expression".toList
  | subscript => "subscript_expression".toList
  | call => "call_expression".toList
  | nonNull => "non_null_expression".toList
  | parenthesized => "parenthesized_expression".toList
  | new => "new_expression".toList
  | instantiation => "instantiation_expression".toList
  | update => "update_expression".toList
  | unary => "unary_expression".toList
  | await => "await_expression".toList
  | assertion => "type_assertion".toList
  | binary => "binary_expression".toList
  | cast => "as_expression".toList
  | satisfies => "satisfies_expression".toList
  | conditional => "ternary_expression".toList
  | assignment => "assignment_expression".toList
  | augmentedAssignment => "augmented_assignment_expression".toList
  | yield => "yield_expression".toList
  | namespaceValue => "internal_module".toList
  | sequence => "sequence_expression".toList
  | spread => "spread_element".toList

/-- The form needs no parentheses to be called, tagged or looked into. -/
def isPrimary : Form → Bool
  | identifier | keyword _ | number | regex | array | function | generator | arrow | classValue
  | metaProperty | member | subscript | call | nonNull | parenthesized => true
  | new | instantiation | update | unary | await | assertion | binary | cast | satisfies
  | conditional | assignment | augmentedAssignment | yield | namespaceValue | sequence | spread =>
    false

/-- The form names a place that can be assigned to. -/
def isPlace : Form → Bool
  | identifier | member | subscript | nonNull => true
  | keyword word => word = "undefined".toList
  | number | regex | array | function | generator | arrow | classValue | metaProperty | call
  | parenthesized | new | instantiation | update | unary | await | assertion | binary | cast
  | satisfies | conditional | assignment | augmentedAssignment | yield | namespaceValue
  | sequence | spread => false

end Form

/-- An expression, as deep as literals are looked for. -/
inductive Expr where
  /-- A string literal with its quotes. -/
  | string (raw : Text)
  /-- A template literal with its backticks. -/
  | template (raw : Text)
  /-- An object literal with its `key: value` members. -/
  | object (pairs : List (Text × Expr))
  /-- A form that leaves the value of the inner expression as it is. -/
  | wrapped (form : Form) (inner : Expr)
  /-- Any other expression. -/
  | plain (form : Form)
  deriving Repr

namespace Expr

/-- The form of an expression that is no literal of text or an object. -/
def form? : Expr → Option Form
  | string _ | template _ | object _ => none
  | wrapped form _ | plain form => some form

def isPrimary (e : Expr) : Bool := e.form?.all Form.isPrimary

def isPlace (e : Expr) : Bool := e.form?.any Form.isPlace

end Expr

/-! ## Classes -/

/-- An expression passed to a decorator, with its source text. -/
structure ArgumentNode where
  source : Text
  expr : Expr
  deriving Repr

/-- A decorator: the source of what is applied, and the arguments if it is a call. -/
structure DecoratorNode where
  callee : Text
  arguments : List ArgumentNode := []
  deriving Repr

structure ParameterNode where
  decorators : List DecoratorNode := []
  /-- The source of the name or the pattern. -/
  pattern : Text
  question : Bool := false
  type : Option TypeSource := none
  initializer : Bool := false
  deriving Repr

structure MethodNode where
  name : Text
  /-- The decorators inside of its own source. -/
  decorators : List DecoratorNode := []
  parameters : List ParameterNode := []
  returnType : Option TypeSource := none
  line : Nat := 1
  deriving Repr

/-- What stands at one place in the body of a class. The decorators of a method precede it at places of
their own; those of a field belong to the field. -/
inductive Member where
  | decorator (d : DecoratorNode)
  | comment
  /-- A method with a body. -/
  | method (m : MethodNode)
  /-- A field, a signature of a method or of an index, abstract ones included, or an initialization
  block. -/
  | other
  deriving Repr

structure ClassNode where
  name : Name
  decorators : List DecoratorNode := []
  members : List Member := []
  line : Nat := 1
  deriving Repr

/-! ## Statements -/

/-- An import statement. A named import is its name in the module and an alias. -/
structure ImportNode where
  /-- The source of the module's name with its quotes. -/
  specifier : Text := []
  named : List (Text × Option Text) := []
  namespaceName : Option Text := none
  defaultName : Option Text := none
  deriving Repr

/-- A statement on the top level of a file. An export of a declaration counts as the declaration. -/
inductive Statement where
  | importing (i : ImportNode)
  /-- A class with the decorators that stand before its `export`. -/
  | classDecl (outer : List DecoratorNode) (c : ClassNode)
  /-- Variables, each with the source of its pattern and its value. -/
  | bindings (declared : List (Text × Option Expr))
  | other
  deriving Repr

end NestClient.TypeScript
