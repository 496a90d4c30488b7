import NestClient.TypeScript.Grammar.Classes

/-! Expressions. What is kept of one is its form, the text of literals, and the pairs of an object. An
operand is read together with all that binds to it more tightly than what it is read for. -/

namespace NestClient.TypeScript.Rules

open Parse

/-- An expression of a form of which nothing more is kept. -/
def formed (form : Form) : Parse Expr := return .plain form

/-! ## Objects and arrays -/

/-- Marks behind the name of a member of an object. -/
def afterObjectName : List Char := "(<?:,=\x7d".toList

/-- One member of an object literal; the answer is its key and value if it is a pair. -/
def objectMember (r : Rules) : Parse (Option (Text × Expr)) := do
  if ← acceptMark "..." then
    discard r.operand
    return none
  else
    let words ← r.modifiers [methodSlots] [] afterObjectName []
    let shorthand := (← peek).kind = .word && words.isEmpty
    let (_, key) ← withSource r.propertyName
    let question ← acceptMark "?"
    if isOneOfMarks ["(", "<"] (← peek) then
      discard (r.signature .never)
      r.block
      return none
    else if !words.isEmpty || question then stuck
    else if ← acceptMark ":" then return some (key, ← r.operand)
    else if shorthand then return none
    else stuck

/-- An object literal, in which members may be left out. -/
def objectLiteral (r : Rules) : Parse Expr := do
  mark "\x7b"
  let members ← sparseList r.bound '}' r.objectMember
  return .object (members.filterMap id)

/-- An array literal, in which elements may be left out. -/
def arrayLiteral (r : Rules) : Parse Expr := do
  mark "["
  discard (sparseList r.bound ']' r.spreadable)
  formed .array

/-- A literal, or a destructuring pattern that is assigned to. -/
def literalOrPattern (r : Rules) (semicolon : Bool) (literal : Parse Expr) : Parse Expr :=
  orElse
    (do
      let e ← literal
      if isMark "=" (← peek) then stuck
      return e)
    (do
      discard r.destructuring?
      mark "="
      discard (r.expression semicolon)
      formed .assignment)

/-- A template literal with expressions in its holes. -/
def templateLiteral (r : Rules) : Parse Expr := do
  let (_, raw) ← withSource (template r.bound true do discard (r.sequence false))
  return .template raw

/-! ## Functions and classes -/

/-- A function from its keyword on. -/
def functionValue (r : Rules) : Parse Expr := do
  word "function"
  let generator ← acceptMark "*"
  if (← peek).kind = .word then skip
  discard (r.signature .never)
  r.functionBody
  formed (if generator then .generator else .function)

/-- A class from its decorators on, with or without a name. -/
def classValue (r : Rules) : Parse Expr := do
  discard r.decorators
  word "class"
  let next ← peek
  if next.kind = .word && !isOneOfWords ["extends", "implements"] next then skip
  discard r.classRest
  formed .classValue

/-- An arrow function after its parameters. -/
def arrowRest (r : Rules) (semicolon : Bool) : Parse Expr := do
  mark "=>"
  if isMark "\x7b" (← peek) then r.functionBody else discard (r.expression semicolon)
  formed .arrow

/-- The parameters and the return type of an arrow function up to its arrow. A return type in
parentheses is no function type if that would take the arrow. -/
def arrowHead (r : Rules) : Parse Unit := do
  let arrow : Parse Unit := do
    if !isMark "=>" (← peek) then stuck
  r.typeParameters
  discard r.parameters
  orElse
    (do
      discard (r.returnType? .never)
      arrow)
    (do
      discard (r.returnType? { arrow := true })
      arrow)

/-- An arrow function with parameters in parentheses, if there is one. -/
def arrow? (r : Rules) (semicolon : Bool) : Parse (Option Expr) := do
  match ← attempt r.arrowHead with
  | some () => some <$> r.arrowRest semicolon
  | none => return none

/-! ## Words that begin an operand -/

/-- Goes on behind a word that is a name unless something else makes more of it: an arrow function
with that name for its parameter, or the name alone. -/
def nameRest (r : Rules) (semicolon : Bool) : Parse Expr := do
  if isMark "=>" (← peek) then r.arrowRest semicolon else formed .identifier

/-- A function or an arrow function behind `async`, or that name. -/
def asyncValue (r : Rules) (semicolon : Bool) : Parse Expr := do
  skip
  let next ← peek
  if semicolon && (← lineEnds .operand) then formed .identifier
  else if isKeyword "function" next then r.functionValue
  else if next.kind = .word && !isOneOfWords operatorWords next && isMark "=>" (← ahead 1) then
    skip
    r.arrowRest semicolon
  else if isMark "(" next || startsMark '<' next then
    match ← r.arrow? semicolon with
    | some e => return e
    | none => formed .identifier
  else r.nameRest semicolon

def startsOperand (t : Token) : Bool :=
  match t.kind with
  | .word => !isOneOfWords operatorWords t
  | .privateName | .number | .string => true
  | .mark =>
    startsMark '/' t || isOneOfMarks ["(", "[", "\x7b", "<", "<<", "!", "~", "+", "-", "++", "--",
      "@", "\x60"] t
  | .templatePiece | .regex | .comment | .bad | .endOfFile => false

/-- A new object behind `new`: a constructor without calls, type arguments for it, and arguments. Or
the name `new`. -/
def newValue (r : Rules) (semicolon : Bool) : Parse Expr := do
  skip
  let next ← peek
  if semicolon && (← lineEnds .operand) then formed .identifier
  else if isMark "." next then
    skip
    word "target"
    formed .metaProperty
  else if startsOperand next then
    let e ← r.read (.expression .constructor false)
    if !e.isPrimary then stuck
    if isMark "<" (← peek) then r.typeArguments
    if isMark "(" (← peek) then discard r.arguments
    formed .new
  else r.nameRest semicolon

/-- What `import` makes: properties of the module, or a call that loads one. -/
def importValue (r : Rules) : Parse Expr := do
  skip
  if ← acceptMark "." then
    word "meta"
    formed .metaProperty
  else if ← acceptMark "?." then
    memberName
    formed .member
  else
    if startsMark '<' (← peek) then r.typeArguments
    discard r.arguments
    formed .call

/-- What `yield` hands out. -/
def yieldValue (r : Rules) (semicolon : Bool) : Parse Expr := do
  skip
  if !(semicolon && (← lineEnds .operand)) then
    if ← acceptMark "*" then discard (r.expression semicolon)
    else if startsOperand (← peek) && !isMark "<<" (← peek) then discard (r.expression semicolon)
  formed .yield

/-- A namespace behind its keyword, or the name `namespace`. -/
def namespaceValue (r : Rules) (semicolon : Bool) : Parse Expr := do
  skip
  let next ← peek
  if semicolon && (← lineEnds .operand) then formed .identifier
  else if next.kind = .string || next.kind = .word && !isOneOfWords operatorWords next then
    if next.kind = .string then skip else r.dottedName
    if isMark "\x7b" (← peek) then r.functionBody
    formed .namespaceValue
  else r.nameRest semicolon

def prefixed (r : Rules) (pending : Pending) (semicolon : Bool) (form : Form) : Parse Expr := do
  discard (r.read (.expression pending semicolon))
  formed form

/-- A resource that `using` declares: always an assignment. -/
def usingValue (r : Rules) (semicolon : Bool) : Parse Expr := do
  skip
  match ← r.read (.expression .nothing semicolon) with
  | .plain .assignment => formed .assignment
  | _ => stuck

def wordValue (r : Rules) (semicolon : Bool) : Parse Expr := do
  let t ← peek
  if isKeyword "function" t then r.functionValue
  else if isKeyword "async" t then r.asyncValue semicolon
  else if isKeyword "class" t then r.classValue
  else if isKeyword "new" t then r.newValue semicolon
  else if isKeyword "import" t then r.importValue
  else if isKeyword "yield" t then r.yieldValue semicolon
  else if isKeyword "namespace" t then r.namespaceValue semicolon
  else if isKeyword "using" t then r.usingValue semicolon
  else if isKeyword "await" t then
    skip
    r.prefixed .await semicolon .await
  else if isOneOfWords ["typeof", "void", "delete"] t then
    skip
    r.prefixed .unary semicolon .unary
  else if isOneOfWords ["this", "super", "null", "true", "false", "undefined"] t then
    skip
    formed (.keyword t.text)
  else
    skip
    r.nameRest semicolon

/-! ## Marks that begin an operand -/

/-- What follows the first expression in parentheses: a type for it, or more expressions. -/
def parenthesizedRest (r : Rules) (first : Expr) : Parse Expr := do
  if ← acceptMark ":" then
    r.type
    return first
  else if ← acceptMark "," then
    discard (r.sequence false)
    formed .sequence
  else return first

def parenthesized (r : Rules) : Parse Expr := do
  mark "("
  let inner ← r.parenthesizedRest (← r.operand)
  mark ")"
  return .wrapped .parenthesized inner

def markValue (r : Rules) (semicolon : Bool) : Parse Expr := do
  let t ← peek
  if isMark "(" t then
    match ← r.arrow? semicolon with
    | some e => return e
    | none => r.parenthesized
  else if isMark "[" t then r.literalOrPattern semicolon r.arrayLiteral
  else if isMark "\x7b" t then r.literalOrPattern semicolon r.objectLiteral
  else if isMark "\x60" t then r.templateLiteral
  else if isMark "@" t then r.classValue
  else if startsMark '/' t then
    regex
    formed .regex
  else if startsMark '<' t then
    match ← r.arrow? semicolon with
    | some e => return e
    | none =>
      r.typeArguments
      r.prefixed .assertion semicolon .assertion
  else if isOneOfMarks ["!", "~", "-", "+"] t then
    skip
    r.prefixed .unary semicolon .unary
  else if isOneOfMarks ["++", "--"] t then
    skip
    r.prefixed .step semicolon .update
  else stuck

/-- An operand without anything behind it. -/
def operandRule (r : Rules) (semicolon : Bool) : Parse Expr := do
  let t ← peek
  match t.kind with
  | .word => r.wordValue semicolon
  | .mark => r.markValue semicolon
  | .string =>
    skip
    return .string t.text
  | .number =>
    skip
    formed .number
  | .privateName =>
    skip
    word "in"
    discard (r.read (.expression (.binary Rank.relation) semicolon))
    formed .binary
  | .templatePiece | .regex | .comment | .bad | .endOfFile => stuck

/-! ## What an expression goes on with -/

def index (r : Rules) : Parse Unit := do
  mark "["
  discard (r.sequence false)
  mark "]"

/-- A member, an index or a call behind `?.`. -/
def optionalStep (r : Rules) (pending : Pending) (e : Expr) : Parse (Option Expr) := do
  let next ← ahead 1
  if isMark "(" next || startsMark '<' next then
    if !e.isPrimary then return none
    else
      skip
      r.typeArguments? .never
      discard r.arguments
      return some (.plain .call)
  else if !(e.isPrimary || pending.takes .member) then return none
  else
    skip
    if isMark "[" next then
      r.index
      return some (.plain .subscript)
    else
      memberName
      return some (.plain .member)

/-- Who takes what looks like type arguments without a call. -/
inductive TypedEnd where
  /-- The operand before them: no other operand follows. -/
  | operand
  /-- The class whose base they follow. -/
  | heritage
  /-- Perhaps nobody: an operand follows, and `<` and `>` may be operators. -/
  | unclear
  deriving DecidableEq, Repr

/-- Tells by what follows type arguments who takes them. -/
def typedEnd (pending : Pending) (semicolon : Bool) : Parse TypedEnd := do
  let t ← peek
  let next ← ahead 1
  if pending = .base && (isOneOfMarks ["\x7b", ","] t || isKeyword "implements" t) then
    return .heritage
  else if semicolon && (← lineEnds .operand) then return .operand
  else if isMark "!" t then return if startsOperand next then .unclear else .operand
  else return if isMark "=" t || startsOperand t then .unclear else .operand

/-- A comparison whose operator is `<`. -/
def comparison (r : Rules) (semicolon : Bool) : Parse (Option Expr) := do
  mark "<"
  if isOneOfWords typeKeywords (← peek) then stuck
  discard (r.read (.expression (.binary Rank.relation) semicolon))
  return some (.plain .binary)

/-- Type arguments behind an operand with the arguments of a call, or alone. -/
def typedStep (r : Rules) (pending : Pending) (semicolon : Bool) : Parse (Option Expr) := do
  let t ← ahead 1
  let loads := isKeyword "typeof" t && isKeyword "import" (← ahead 2)
  let typed : Parse Unit :=
    if isOneOfWords operandWords t || loads then stuck
    else r.typesFrom (r.typeBefore { operator := true })
  let called ← attempt do
    if !pending.takes .call then stuck
    typed
    discard r.arguments
  let instantiated : Parse (Option Expr) := do
    typed
    return some (.plain .instantiation)
  if called.isSome then return some (.plain .call)
  else
    match ← attempt (look do
      typed
      typedEnd pending semicolon) with
    | some .heritage => return none
    | some .operand => if pending.takes .instantiation then instantiated else return none
    | some .unclear =>
      if !pending.takes (.binary Rank.relation) then return none
      else if pending.takes .instantiation then orElse (r.comparison semicolon) instantiated
      else r.comparison semicolon
    | none =>
      if pending.takes (.binary Rank.relation) then r.comparison semicolon else return none

/-- The branches of a condition. What looks like the parameters of an arrow function and its return
type can be a branch in parentheses and the start of the other branch. -/
def branches (r : Rules) (semicolon : Bool) : Parse Unit := do
  let otherwise : Parse Unit := do
    mark ":"
    discard (r.expression semicolon)
  let first : Parse Unit := do
    discard r.operand
    otherwise
  if isMark "(" (← peek) then
    orElse first do
      discard r.parenthesized
      otherwise
  else first

/-- The question mark begins the branches of a condition. -/
def startsBranches : Parse Bool := do
  let c ← get
  return isMark "?" c.next
    && !(c.rest.dropWhile LineEnd.isLineSpace).head?.any ":),".toList.contains

/-- The operators that assign and compute. -/
def assignmentMarks : List String := [
  "+=", "-=", "*=", "/=", "%=", "^=", "&=", "|=", ">>=", ">>>=", "<<=", "**=", "&&=", "||=", "??="]

/-- The expression can stand before an operator that assigns. -/
def isAssignable : Expr → Bool
  | .wrapped .parenthesized _ => true
  | e => e.isPlace

/-- The expression is `undefined`, which nothing is added to. -/
def isUndefined (e : Expr) : Bool := e.form? = some (.keyword "undefined".toList)

/-- An operator between operands, or one that assigns. -/
def binaryStep (r : Rules) (pending : Pending) (semicolon : Bool) (e : Expr) (t : Token) :
    Parse (Option Expr) := do
  if isMark "=" t && isAssignable e then
    skip
    discard (r.expression semicolon)
    return some (.plain .assignment)
  else if isOneOfMarks assignmentMarks t && isAssignable e && !isUndefined e then
    skip
    discard (r.expression semicolon)
    return some (.plain .augmentedAssignment)
  else
    match Rank.ofToken? t with
    | none => return none
    | some rank =>
      if !pending.takes (.binary rank) then return none
      else
        skip
        discard (r.read (.expression (.binary rank) semicolon))
        return some (.plain .binary)

/-- A type behind `as` or `satisfies`. -/
def castStep (r : Rules) (semicolon : Bool) (e : Expr) : Parse (Option Expr) := do
  let t ← peek
  skip
  r.typeBefore { semicolon, operator := true }
  return some (.wrapped (if isKeyword "as" t then .cast else .satisfies) e)

/-- One more step of an expression, unless the pending operator comes first. -/
def step (r : Rules) (pending : Pending) (semicolon : Bool) (e : Expr) : Parse (Option Expr) := do
  let t ← peek
  let looks := e.isPrimary || pending.takes .member
  if semicolon && (← lineEnds .operand) then return none
  else if isMark "." t && looks then
    skip
    memberName
    return some (.plain .member)
  else if isMark "?." t then r.optionalStep pending e
  else if isMark "[" t && looks then
    r.index
    return some (.plain .subscript)
  else if isMark "\x60" t && (e.isPrimary || e.form? = some .new) then
    discard r.templateLiteral
    return some (.plain .call)
  else if isMark "(" t then
    if !pending.takes .call then return none
    else
      discard r.arguments
      return some (.plain .call)
  else if isMark "<" t && pending ≠ .constructor then r.typedStep pending semicolon
  else if isMark "!" t then
    if !pending.takes .nonNull then return none
    else
      skip
      return some (.wrapped .nonNull e)
  else if isOneOfMarks ["++", "--"] t then
    if !pending.takes .step then return none
    else
      skip
      return some (.plain .update)
  else if isOneOfWords ["as", "satisfies"] t then
    if pending.takes .cast then r.castStep semicolon e else return none
  else if ← startsBranches then
    if !pending.takes .condition then return none
    else
      skip
      r.branches semicolon
      return some (.plain .conditional)
  else if pending = .place then return none
  else r.binaryStep pending semicolon e t

def expressionRule (r : Rules) (pending : Pending) (semicolon : Bool) : Parse Expr := do
  iterate (r.step pending semicolon) r.bound (← r.operandRule semicolon)

end NestClient.TypeScript.Rules
