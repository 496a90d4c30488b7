import NestClient.TypeScript.Token

/-! How tightly operators bind. Reading an operand, the parser carries what is still pending: the
operator that the operand belongs to. A further operator goes to the operand if the pending one lets
it, and otherwise to the expression that the pending one makes. -/

namespace NestClient.TypeScript

/-- The rank of an operator between two operands; a higher one binds tighter. -/
abbrev Rank := Nat

namespace Rank

def coalesce : Rank := 1
def disjunction : Rank := 2
def conjunction : Rank := 3
def bitOr : Rank := 4
def bitXor : Rank := 5
def bitAnd : Rank := 6
def equality : Rank := 7
def relation : Rank := 8
def shift : Rank := 9
def sum : Rank := 10
def product : Rank := 11
def power : Rank := 12

/-- The operators of each rank that are marks. -/
def marks : List (Rank × List String) := [
  (coalesce, ["??"]), (disjunction, ["||"]), (conjunction, ["&&"]), (bitOr, ["|"]),
  (bitXor, ["^"]), (bitAnd, ["&"]), (equality, ["==", "===", "!=", "!=="]),
  (relation, ["<", "<=", ">", ">="]), (shift, ["<<", ">>", ">>>"]), (sum, ["+", "-"]),
  (product, ["*", "/", "%"]), (power, ["**"])]

def ofToken? (t : Token) : Option Rank :=
  if isOneOfWords ["in", "instanceof"] t then some relation
  else (marks.find? fun (_, ms) => isOneOfMarks ms t).map (·.1)

end Rank

/-- Something that an expression can go on with. -/
inductive Operator where
  /-- `.name` or `[index]`. -/
  | member
  /-- Arguments in parentheses. -/
  | call
  /-- Type arguments without a call. -/
  | instantiation
  /-- `!` after an operand. -/
  | nonNull
  /-- `++` or `--` after an operand. -/
  | step
  | binary (rank : Rank)
  /-- `as` or `satisfies` with a type. -/
  | cast
  /-- The branches of a condition. -/
  | condition
  deriving DecidableEq, Repr

/-- What an operand is read for. -/
inductive Pending where
  /-- Nothing binds it from the left. -/
  | nothing
  /-- A unary operator other than those below. -/
  | unary
  | await
  /-- `++` or `--` before an operand. -/
  | step
  /-- `<T>` before an operand. -/
  | assertion
  | binary (rank : Rank)
  /-- The constructor after `new`. -/
  | constructor
  /-- What a class extends. -/
  | base
  /-- A place that is assigned to. -/
  | place
  deriving DecidableEq, Repr

namespace Pending

/-- The pending operator leaves a further one to its operand. -/
def takes : Pending → Operator → Bool
  | nothing, _ | base, _ => true
  | unary, o =>
    match o with
    | .member | .call | .step => true
    | .instantiation | .nonNull | .binary _ | .cast | .condition => false
  | await, o =>
    match o with
    | .member | .call | .instantiation | .nonNull | .step | .cast => true
    | .binary _ | .condition => false
  | step, o =>
    match o with
    | .member | .call => true
    | .instantiation | .nonNull | .step | .binary _ | .cast | .condition => false
  | assertion, o =>
    match o with
    | .call | .instantiation => true
    | .member | .nonNull | .step | .binary _ | .cast | .condition => false
  | .binary pending, o =>
    match o with
    | .binary further => pending < further || (pending = Rank.power && further = Rank.power)
    | .instantiation | .nonNull | .cast => pending = Rank.power
    | .member | .call | .step => true
    | .condition => false
  | constructor, o =>
    match o with
    | .member => true
    | .call | .instantiation | .nonNull | .step | .binary _ | .cast | .condition => false
  | place, o =>
    match o with
    | .member | .call | .nonNull => true
    | .instantiation | .step | .binary _ | .cast | .condition => false

end Pending

end NestClient.TypeScript
