import NestClient.Declaration
import NestClient.TypeScript.Reader

/-! Declarations as a writer of TypeScript lays them out: imports first, then string constants, then
classes, each on lines of its own. What can be written carries its own conditions: an identifier is no
word of the language, and a value needs no escape between single quotes. Each form has its source text
and the declaration it stands for, in which every imported type is named by its module. -/

namespace NestClient.TypeScript.Printed

/-! ## Names and values -/

/-- The words that are reserved, if only in the body of a class or a module. -/
def reservedWords : List String := [
  "break", "case", "catch", "class", "const", "continue", "debugger", "default", "delete", "do",
  "else", "enum", "export", "extends", "false", "finally", "for", "function", "if", "implements",
  "import", "in", "instanceof", "interface", "let", "new", "null", "package", "private", "protected",
  "public", "return", "static", "super", "switch", "this", "throw", "true", "try", "typeof", "var",
  "void", "while", "with", "yield"]

/-- The words that have a meaning in some places. -/
def contextualWords : List String := [
  "abstract", "accessor", "as", "assert", "asserts", "async", "await", "constructor", "declare",
  "defer", "from", "get", "global", "infer", "intrinsic", "is", "keyof", "module", "namespace", "of",
  "out", "override", "readonly", "require", "satisfies", "set", "type", "unique", "using"]

/-- The names of the types that the language defines. -/
def typeWords : List String := [
  "any", "bigint", "boolean", "never", "number", "object", "string", "symbol", "undefined", "unknown"]

def languageWords : List String := reservedWords ++ contextualWords ++ typeWords

/-- A name that a declaration can give. -/
structure Identifier where
  text : Text
  start : text.head?.any isWordStart = true
  chars : (text.all fun c => isWordChar c && !isBlank c) = true
  free : text ∉ languageWords.map String.toList
  deriving DecidableEq, Repr

/-- A value that stands between single quotes as it is. -/
structure StringValue where
  text : Text
  plain : (text.all fun c => !"\x27\\\n\r".toList.contains c) = true
  deriving DecidableEq, Repr

def StringValue.quoted (v : StringValue) : Text := '\x27' :: (v.text ++ ['\x27'])

/-- Texts with a comma and a blank between neighbours. -/
def listed (texts : List Text) : Text := Text.join ", ".toList texts

/-! ## Types -/

/-- A type: a name, in a namespace or not, its type arguments, and how many pairs of brackets
follow. -/
inductive TypeExpr where
  | mk (space : Option Identifier) (name : Identifier) (arguments : List TypeExpr) (brackets : Nat)
  deriving Repr

namespace TypeExpr

def pairs (brackets : Nat) : Text := (List.replicate brackets "[]".toList).flatten

mutual

def render (shown : Option Identifier → Identifier → Text) : TypeExpr → Text
  | mk space name [] brackets => shown space name ++ pairs brackets
  | mk space name (first :: more) brackets =>
    shown space name ++ '<' :: (render shown first ++ renderMore shown more) ++ '>' :: pairs brackets

/-- The text of the type arguments behind the first one. -/
def renderMore (shown : Option Identifier → Identifier → Text) : List TypeExpr → Text
  | [] => []
  | t :: more => ", ".toList ++ render shown t ++ renderMore shown more

end

end TypeExpr

def asWritten (space : Option Identifier) (name : Identifier) : Text :=
  match space with
  | none => name.text
  | some space => space.text ++ '.' :: name.text

def TypeExpr.text (t : TypeExpr) : Text := t.render asWritten

/-! ## Classes -/

structure Decorator where
  name : Identifier
  /-- The arguments, or none at all for a decorator without parentheses. -/
  arguments : Option (List StringValue)
  deriving Repr

def Decorator.text (d : Decorator) : Text :=
  '@' :: (d.name.text ++
    match d.arguments with
    | none => []
    | some values => '(' :: (listed (values.map StringValue.quoted) ++ [')']))

/-- Decorators, each with the same text behind it. -/
def decoratorTexts (behind : Text) (ds : List Decorator) : Text :=
  ds.flatMap fun d => d.text ++ behind

structure Parameter where
  decorators : List Decorator
  name : Identifier
  optional : Bool
  type : Option TypeExpr
  deriving Repr

/-- What stands behind a name that may have a type. -/
def typeText : Option TypeExpr → Text
  | none => []
  | some t => ": ".toList ++ t.text

def Parameter.text (p : Parameter) : Text :=
  decoratorTexts " ".toList p.decorators ++ p.name.text ++ (if p.optional then ['?'] else [])
    ++ typeText p.type

structure Method where
  decorators : List Decorator
  name : Identifier
  parameters : List Parameter
  returnType : Option TypeExpr
  deriving Repr

def Method.text (m : Method) : Text :=
  "  ".toList ++ decoratorTexts "\n  ".toList m.decorators ++ m.name.text
    ++ '(' :: (listed (m.parameters.map Parameter.text) ++ ')' :: typeText m.returnType)
    ++ " \x7b\x7d\n".toList

structure Class where
  decorators : List Decorator
  name : Identifier
  methods : List Method
  deriving Repr

def Class.text (c : Class) : Text :=
  '\n' :: decoratorTexts "\n".toList c.decorators ++ "export class ".toList ++ c.name.text
    ++ " \x7b\n".toList ++ c.methods.flatMap Method.text ++ "\x7d\n".toList

/-! ## Imports and constants -/

/-- What an import takes from its module, apart from the default export. -/
inductive Taken where
  | nothing
  /-- Names in the module, each with another name for it or not. -/
  | names (names : List (Identifier × Option Identifier))
  /-- The module as a whole. -/
  | all (space : Identifier)
  deriving Repr

structure Import where
  specifier : StringValue
  defaultName : Option Identifier
  taken : Taken
  deriving Repr

namespace Taken

def named : Taken → List (Identifier × Option Identifier)
  | nothing | all _ => []
  | names ns => ns

/-- The name for the module as a whole. -/
def space? : Taken → Option Identifier
  | nothing | names _ => none
  | all space => some space

end Taken

/-- A name in a module with the name it gets. -/
def nameText : Identifier × Option Identifier → Text
  | (name, none) => name.text
  | (name, some other) => name.text ++ " as ".toList ++ other.text

/-- What stands before the `from` of an import. -/
def Taken.text : Taken → Text
  | nothing => []
  | names ns => "\x7b ".toList ++ listed (ns.map nameText) ++ " \x7d".toList
  | all space => "* as ".toList ++ space.text

/-- What stands between `import` and the name of the module. -/
def Import.clause (i : Import) : Text :=
  match i.defaultName, i.taken with
  | none, .nothing => []
  | none, taken => taken.text ++ " from ".toList
  | some name, .nothing => name.text ++ " from ".toList
  | some name, taken => name.text ++ ", ".toList ++ taken.text ++ " from ".toList

def Import.text (i : Import) : Text :=
  "import ".toList ++ i.clause ++ i.specifier.quoted ++ ";\n".toList

structure Constant where
  name : Identifier
  value : StringValue
  deriving Repr

def Constant.text (c : Constant) : Text :=
  "export const ".toList ++ c.name.text ++ " = ".toList ++ c.value.quoted ++ ";\n".toList

/-! ## Files -/

structure File where
  imports : List Import
  constants : List Constant
  classes : List Class
  deriving Repr

def File.text (f : File) : Text :=
  f.imports.flatMap Import.text ++ f.constants.flatMap Constant.text ++ f.classes.flatMap Class.text

/-! ## Imported names -/

/-- The name that a named import binds. -/
def localName (n : Identifier × Option Identifier) : Identifier := n.2.getD n.1

def Import.locals (i : Import) : List Identifier :=
  i.taken.named.map localName ++ i.defaultName.toList ++ i.taken.space?.toList

/-- The name in its module of the type that the import binds to a name. A default export goes by the
name it gets. -/
def Import.typeNamed? (i : Import) (name : Identifier) : Option Identifier :=
  ((i.taken.named.find? fun n => localName n = name).map (·.1)).or
    (i.defaultName.filter fun own => own = name)

/-- A name as it refers to its module, if an import binds it or its namespace. -/
def inModule (imports : List Import) (space : Option Identifier) (name : Identifier) : Text :=
  match space with
  | none =>
    match imports.findSome? fun i => (i.typeNamed? name).map fun there => (i, there) with
    | some (i, there) => reference i.specifier.text there.text
    | none => name.text
  | some space =>
    match imports.find? fun i => i.taken.space? = some space with
    | some i => reference i.specifier.text name.text
    | none => asWritten (some space) name

/-! ## What is declared -/

def StringValue.argument (v : StringValue) : Argument :=
  { kind := .string, text := v.quoted, value := some v.text }

def Decorator.decl (d : Decorator) : NestClient.Decorator :=
  ⟨d.name.text, (d.arguments.getD []).map StringValue.argument⟩

def Parameter.decl (imports : List Import) (p : Parameter) : ParameterDecl :=
  { name := p.name.text
    decorators := p.decorators.map Decorator.decl
    type := (p.type.map (·.render (inModule imports))).getD []
    rawType := (p.type.map (·.text)).getD []
    question := p.optional }

def Method.decl (imports : List Import) (m : Method) : MethodDecl :=
  { name := m.name.text
    decorators := m.decorators.map Decorator.decl
    parameters := m.parameters.map (Parameter.decl imports)
    returnType := (m.returnType.map (·.render (inModule imports))).getD []
    rawReturnType := (m.returnType.map (·.text)).getD [] }

def Class.decl (imports : List Import) (c : Class) : ClassDecl :=
  { name := c.name.text
    decorators := c.decorators.map Decorator.decl
    methods := c.methods.map (Method.decl imports) }

def Import.decl (i : Import) : ImportDecl :=
  { specifier := i.specifier.text
    named := i.taken.named.map fun n => (n.1.text, (localName n).text)
    namespaceName := i.taken.space?.map (·.text)
    defaultName := i.defaultName.map (·.text) }

def Constant.decl (c : Constant) : Text × Text := (c.name.text, c.value.text)

end NestClient.TypeScript.Printed

namespace NestClient

/-- The method without the line it stands on. -/
def MethodDecl.anywhere (m : MethodDecl) : MethodDecl := { m with line := 1 }

/-- The class without the lines that it and its methods stand on. -/
def ClassDecl.anywhere (c : ClassDecl) : ClassDecl :=
  { c with line := 1, methods := c.methods.map MethodDecl.anywhere }

end NestClient
