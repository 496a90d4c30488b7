import NestClient.TypeScript.Grammar.Rules

/-! Decorators, patterns and lists of parameters. -/

namespace NestClient.TypeScript.Rules

open Parse

/-! ## Arguments and decorators -/

/-- An expression, or all elements of one. -/
def spreadable (r : Rules) : Parse Expr := do
  if ← acceptMark "..." then
    discard r.operand
    return .plain .spread
  else r.operand

def arguments (r : Rules) : Parse (List ArgumentNode) := do
  mark "("
  sparseList r.bound ')' do
    let (expr, source) ← withSource r.spreadable
    return ⟨source, expr⟩

/-- Types in angle brackets, given how to read the first one. -/
def typesFrom (r : Rules) (first : Parse Unit) : Parse Unit := do
  cut '<'
  first
  if ← acceptMark "," then discard (commaList r.bound '>' r.type) else cut '>'

def typeArguments (r : Rules) : Parse Unit := r.typesFrom r.type

/-- What follows `@`: a name, a member, a call or one of these in parentheses. -/
def decorator (r : Rules) : Parse DecoratorNode := do
  mark "@"
  if isMark "(" (← peek) then
    let (_, source) ← withSource do
      mark "("
      discard call
      mark ")"
    return ⟨source, []⟩
  else call
where
  /-- A dotted name with or without arguments. -/
  call : Parse DecoratorNode := do
    let (_, source) ← withSource r.dottedName
    let typed := startsMark '<' (← peek)
    if typed then r.typeArguments
    if isMark "(" (← peek) then return ⟨source, ← r.arguments⟩
    else if typed then stuck
    else return ⟨source, []⟩

def decorators (r : Rules) : Parse (List DecoratorNode) :=
  manyWhile r.bound (isMark "@") r.decorator

/-! ## Patterns -/

/-- The value that stands in for a missing one, given whether a semicolon can follow. -/
def initializer (r : Rules) (semicolon : Bool) : Parse (Option Expr) := do
  if ← acceptMark "=" then return some (← r.expression semicolon) else return none

/-- A pattern, or one that takes all that is left; the answer tells whether a value can stand in for
it. -/
def restPattern (r : Rules) : Parse Bool := do
  let takesAll ← acceptMark "..."
  r.pattern
  return !takesAll

/-- A pattern in a list of patterns, with a value or not. -/
def patternElement (r : Rules) : Parse Unit := do
  if ← r.restPattern then discard (r.initializer false)

/-- One entry of an object pattern: a property with its pattern, or a name for both. -/
def patternEntry (r : Rules) : Parse Unit := do
  let t ← peek
  if isMark "..." t then discard r.restPattern
  else
    orElse (do
      r.propertyName
      if ← acceptMark ":" then r.patternElement
      else if t.kind ≠ .word then stuck
      else discard (r.initializer false)) do
        if !isOneOfMarks ["[", "\x7b"] t then stuck
        r.pattern
        if (← r.initializer false).isNone then stuck

/-- A destructuring pattern, in which entries may be left out, if the next token begins one. -/
def destructuring? (r : Rules) : Parse Bool := do
  if ← acceptMark "\x7b" then
    discard (sparseList r.bound '}' r.patternEntry)
    return true
  else if ← acceptMark "[" then
    discard (sparseList r.bound ']' r.patternElement)
    return true
  else return false

/-- A destructuring pattern or a place that can be assigned to. -/
def patternRule (r : Rules) : Parse Unit := do
  if !(← r.destructuring?) then
    if isMark "(" (← peek) then stuck
    let e ← r.read (.expression .place false)
    if !e.isPlace then stuck

/-- What a declaration binds: a name or a destructuring pattern. -/
def binding (r : Rules) : Parse Unit := do
  if !(← r.destructuring?) then name

/-! ## Parameters -/

/-- What may stand before the name of a parameter. -/
def parameterSlots : Slots := [accessWords, ["override"], ["readonly"]]

/-- Reads the modifiers of a parameter: words that a name or a pattern follows. -/
def skipParameterModifiers (r : Rules) : Parse Unit := do
  discard (iterate (fun words => do
    let t ← peek
    let next ← ahead 1
    let more := words ++ [t.text]
    if t.kind = .word && fits parameterSlots more
        && (next.kind = .word && !isOneOfWords operatorWords next
          || isOneOfMarks ["\x7b", "[", "..."] next) then
      skip
      return some more
    else return none) r.bound [])

/-- The question mark of an optional parameter. With anything but the end of the parameter or its type
behind it, even a comment, it would begin a condition. -/
def optionMark : Parse Bool := do
  let after := (← get).rest.dropWhile LineEnd.isLineSpace
  let marked ← acceptMark "?"
  if marked && !after.head?.any ":),".toList.contains then stuck
  return marked

/-- The source of a type after a colon. The word `const` alone stands for none. -/
def ofAnnotation (t : TypeSource) : TypeSource := if t.text = "const".toList then [] else t

def parameter (r : Rules) : Parse ParameterNode := do
  let decorators ← r.decorators
  r.skipParameterModifiers
  let (single, pattern) ← withSource do
    if isKeyword "this" (← peek) && !isOneOfMarks [".", "[", "!"] (← ahead 1) then
      skip
      return true
    else r.restPattern
  let question ← optionMark
  let type ← if ← acceptMark ":" then some <$> ofAnnotation <$> typeSource r.type else pure none
  let initial ← if single || type.isSome then r.initializer false else pure none
  return { decorators, pattern, question, type, initializer := initial.isSome }

def parameters (r : Rules) : Parse (List ParameterNode) := do
  mark "("
  commaList r.bound ')' r.parameter

/-- One type parameter with its bound and its default. -/
def typeParameter (r : Rules) : Parse Unit := do
  discard (acceptWord "const")
  if (← peek).kind = .word then discard (advance .typeName) else stuck
  if ← accept fun t => isKeyword "extends" t || isMark ":" t then r.type
  if ← acceptMark "=" then r.type

/-- Type parameters in angle brackets, if there are any. -/
def typeParameters (r : Rules) : Parse Unit := do
  if ← acceptCut '<' then discard (commaList1 r.bound '>' r.typeParameter)

end NestClient.TypeScript.Rules
