import NestClient.TypeScript.Grammar.Cursor

/-! The goals of the grammar that can contain each other, as rules that are given each other, and what
all rules share. -/

namespace NestClient.TypeScript

/-! ## Goals -/

/-- What can contain itself at any depth. -/
inductive Goal where
  | type (e : Ending)
  /-- An expression without commas, given what it is read for and whether a semicolon can follow. -/
  | expression (pending : Pending) (semicolon : Bool)
  /-- A place that is assigned to, or a destructuring pattern. -/
  | pattern
  | statement
  deriving DecidableEq, Repr

/-- What reading a goal gives. -/
@[reducible] def Goal.Result : Goal → Type
  | type _ => Unit
  | expression .. => Expr
  | pattern => Unit
  | statement => Statement

/-- The rules of the grammar at hand: how to read each goal, and a bound for repetitions. -/
structure Rules where
  bound : Nat
  read : (g : Goal) → Parse g.Result

namespace Rules

open Parse

/-- A type that something closes. -/
def type (r : Rules) : Parse Unit := r.read (.type .never)

/-- A type, given what can follow it. -/
def typeBefore (r : Rules) (e : Ending) : Parse Unit := r.read (.type e)

/-- An expression that nothing binds. -/
def expression (r : Rules) (semicolon : Bool) : Parse Expr :=
  r.read (.expression .nothing semicolon)

/-- An expression that something closes. -/
def operand (r : Rules) : Parse Expr := r.expression false

def pattern (r : Rules) : Parse Unit := r.read .pattern

def statement (r : Rules) : Parse Statement := r.read .statement

/-- Expressions with commas between them. -/
def sequence (r : Rules) (semicolon : Bool) : Parse Expr := do
  match ← commas r.bound (r.expression semicolon) with
  | [e] => return e
  | _ => return .plain .sequence

def block (r : Rules) : Parse Unit := do
  mark "\x7b"
  discard (manyUntil r.bound (isMark "\x7d") r.statement)
  mark "\x7d"

/-- The body of a function that is a value. The comments behind it on its line belong to it if the
line ends it. -/
def functionBody (r : Rules) : Parse Unit := do
  r.block
  if ← lineEnds .operand then modify Cursor.takeComments

/-! ## Names -/

/-- Words that name nothing where an operand is due. -/
def operandKeywords : List String := [
  "await", "class", "delete", "false", "function", "import", "null", "super", "this", "true",
  "typeof", "using", "void", "yield"]

/-- Words with a meaning of their own in places where they can be names nevertheless. -/
def softNames : List String := [
  "any", "async", "boolean", "declare", "export", "get", "let", "module", "namespace", "new",
  "number", "object", "override", "private", "protected", "public", "readonly", "set", "static",
  "string", "symbol", "type"]

/-- The token can be the name of a variable. -/
def isVariable (t : Token) : Bool := t.kind = .word && !isOneOfWords operandKeywords t

/-- The token can be the name of a label or a key. -/
def isLabel (t : Token) : Bool := isVariable t && !isKeyword "undefined" t

/-- Words that are operators behind an operand. -/
def operatorWords : List String := ["as", "in", "instanceof", "satisfies"]

/-- The token begins the name of a property: a word, a literal, `#name` or a computed name. -/
def startsPropertyName (t : Token) : Bool :=
  match t.kind with
  | .word | .privateName | .string | .number => true
  | .mark => isMark "[" t
  | .templatePiece | .regex | .comment | .bad | .endOfFile => false

def propertyName (r : Rules) : Parse Unit := do
  let t ← peek
  if isMark "[" t then
    skip
    discard r.operand
    mark "]"
  else if startsPropertyName t then skip
  else stuck

/-- A name behind a point. -/
def memberName : Parse Unit := do
  discard (expect fun t => t.kind = .word || t.kind = .privateName)

def dottedName (r : Rules) : Parse Unit := do
  name
  discard (manyWhile r.bound (isMark ".") do
    mark "."
    name)

/-! ## Modifiers -/

/-- What may stand before a name: at most one word or mark out of each list, in this order. -/
abbrev Slots := List (List String)

def fits : Slots → List Text → Bool
  | _, [] => true
  | [], _ :: _ => false
  | slot :: slots, w :: ws =>
    if slot.any fun s => s.toList = w then fits slots ws else fits slots (w :: ws)

def accessWords : List String := ["public", "private", "protected"]

/-- What may stand before the name of a method. -/
def methodSlots : Slots := [
  accessWords, ["static"], ["override"], ["readonly"], ["async"], ["get", "set", "*"]]

/-- What may stand before the name of a property of an object type. -/
def propertySlots : Slots := [accessWords, ["static"], ["override"], ["readonly"]]

/-- The end of a member that may have no parameters if its modifiers fit into one of some slots. -/
def nameEnding (fields : List Slots) (words : List Text) : Ending :=
  if fields.any fun s => fits s words then .plain else .never

/-- Reads a word and tells whether it is the name itself: its line ends or one of these marks
follows. -/
def isNamed (e : Ending) (marks : List Char) : Parse Bool := do
  skip
  if ← lineEnds e then return true
  let next ← peek
  return next.kind = .endOfFile || marks.any fun c => startsMark c next

/-- Reads modifiers as long as they fit into one of some slots, or into one for members without
parameters, and are not the name. -/
def modifiers (r : Rules) (slots fields : List Slots) (marks : List Char)
    (never : List String) : Parse (List Text) :=
  iterate (fun words => do
    let t ← peek
    let more := words ++ [t.text]
    if (t.kind = .word || isMark "*" t) && (slots ++ fields).any fun s => fits s more then
      if t.kind = .word && !isOneOfWords never t
          && (← look (isNamed (nameEnding fields words) marks)) then return none
      else
        skip
        return some more
    else return none) r.bound []

end Rules

end NestClient.TypeScript
