import NestClient.TypeScript.Grammar.Parameters

/-! Types. Names of types are read in the role of a type name, two-part names in the roles of their
parts; every other token is plain. -/

namespace NestClient.TypeScript.Rules

open Parse

/-! ## Names -/

/-- The types that the language defines, with `unique` apart. -/
def builtInTypes : List String := [
  "any", "number", "boolean", "string", "symbol", "void", "unknown", "never", "object"]

/-- Words that stand for the type of a single value, of the object at hand or of a constant. -/
def valueTypes : List String := ["this", "null", "true", "false", "undefined", "const"]

/-- Words that begin a type of their own and name none. -/
def typeOperators : List String := [
  "abstract", "import", "infer", "keyof", "new", "readonly", "typeof", "unique"]

/-- Words that begin a type where an operand could stand as well. -/
def typeKeywords : List String := [
  "abstract", "const", "infer", "keyof", "never", "unique", "unknown"]

/-- Words that no type can begin with where an operand could stand as well. -/
def operandWords : List String := [
  "async", "await", "class", "declare", "delete", "export", "function", "get", "import", "let",
  "module", "namespace", "override", "private", "protected", "public", "set", "static", "super",
  "type", "using", "yield"]

def isTypeName (t : Token) : Bool :=
  t.kind = .word && !isOneOfWords (builtInTypes ++ valueTypes ++ typeOperators) t

/-- A name in the place of a type: a simple one, one in a namespace, or a longer chain. -/
def typeName (r : Rules) : Parse Unit := do
  if (← peek).kind ≠ .word then stuck
  else if !isMark "." (← ahead 1) then discard (advance .typeName)
  else if !isMark "." (← ahead 3) then
    discard (advance .space)
    mark "."
    if (← peek).kind = .word then discard (advance .memberName) else stuck
  else r.dottedName

/-- The name of a type, which no word with a meaning of its own begins. -/
def typeReference (r : Rules) : Parse Unit := do
  if isTypeName (← peek) then r.typeName else stuck

/-- Type arguments, if there are any. Where operators can follow, a longer mark is one of those. -/
def typeArguments? (r : Rules) (e : Ending) : Parse Unit := do
  let t ← peek
  if isMark "<" t || startsMark '<' t && !e.operator then r.typeArguments

/-! ## Types of modules and values -/

/-- What a part of a value is. -/
inductive ValuePart where
  | module
  /-- The object at hand. -/
  | self
  /-- A name, a member or an element. -/
  | place
  | call
  deriving DecidableEq, Repr

/-- Arguments for values or types can follow the part. -/
def ValuePart.isGeneric : ValuePart → Bool
  | .module | .place => true
  | .self | .call => false

/-- A member of a module or its call in a type, if there is one. -/
def moduleStep (r : Rules) (e : Ending) (last : ValuePart) : Parse (Option ValuePart) := do
  let t ← peek
  if last ≠ .module && (← lineEnds e) then return none
  else if isMark "." t then
    skip
    memberName
    return some .place
  else if isMark "(" t && last ≠ .call then
    discard r.arguments
    return some .call
  else return none

/-- The type of a module: `import('…')`, with the member that is meant. Neither an array suffix nor
type arguments can follow it. -/
def importType (r : Rules) (e : Ending) : Parse Unit := do
  word "import"
  let last ← iterate (r.moduleStep e) r.bound .module
  if last = .module then stuck

/-- An element of a value, in brackets. -/
def element : Parse Unit := do
  mark "["
  if ← acceptWord "unique" then word "symbol"
  else
    discard (expect fun t =>
      t.kind = .string || t.kind = .number || isOneOfWords builtInTypes t)
  mark "]"

/-- A further part of a value, if there is one: a member, an element or a call. Brackets without `?.`
are a suffix of the type. -/
def valueStep (r : Rules) (e : Ending) (last : ValuePart) : Parse (Option ValuePart) := do
  let t ← peek
  if last ≠ .module && (← lineEnds e) then return none
  else if isMark "(" t && last.isGeneric then
    discard r.arguments
    return some .call
  else if last ≠ .module && isOneOfMarks [".", "?."] t then
    skip
    if isMark "?." t && isMark "[" (← peek) then element else memberName
    return some .place
  else return none

/-- The type of a value: `typeof` and the value, with type arguments or not. -/
def typeQuery (r : Rules) (e : Ending) : Parse Unit := do
  word "typeof"
  let t ← expect (·.kind = .word)
  let first : ValuePart :=
    if isKeyword "import" t then .module else if isKeyword "this" t then .self else .place
  let last ← iterate (r.valueStep e) r.bound first
  if startsMark '<' (← peek) && last.isGeneric then r.typeArguments? e
  else if last = .module then stuck

/-! ## Signatures -/

/-- What a predicate is about; names of types may name it as well. -/
def subject (test : Token → Bool) : Parse Token := do
  let t ← expect test
  if isKeyword "unique" t then word "symbol"
  return t

/-- A predicate `x is T` begins here. -/
def startsPredicate (e : Ending) : Parse Bool := look do
  let t ← attempt (subject fun t =>
    isTypeName t || isOneOfWords ("this" :: "unique" :: builtInTypes) t)
  return t.isSome && isKeyword "is" (← peek) && !(← lineEnds e)

/-- What a function type returns: a type, `asserts x`, or a predicate `x is T`. The answer tells
whether it is one of the latter. -/
def returned (r : Rules) (e : Ending) : Parse Bool := do
  if ← acceptWord "asserts" then
    let t ← subject (·.kind = .word)
    let isType := isOneOfWords ("unique" :: builtInTypes) t
    if !isType && (← lineEnds e) then return true
    else if ← acceptWord "is" then r.typeBefore e
    else if isType then stuck
    return true
  else if ← startsPredicate e then
    discard (subject (·.kind = .word))
    word "is"
    r.typeBefore e
    return true
  else
    r.typeBefore e
    return false

/-- A type after a colon. -/
def annotation (r : Rules) (e : Ending) : Parse Unit := do
  mark ":"
  r.typeBefore e

/-- The return type of a function, if it has one: what follows the colon, but a predicate with its
colon. -/
def returnType? (r : Rules) (e : Ending) : Parse (Option TypeSource) := do
  if !isMark ":" (← peek) then return none
  else
    let colon ← peek
    mark ":"
    let start ← peek
    let predicate ← r.returned e
    let leaves ← leavesSince (if predicate then colon.place else start.place)
    match leaves with
    | [] => return some []
    | first :: more =>
      let source := piecesFrom [] first more
      return some (if predicate then source else ofAnnotation source)

/-- The parameters and the return type of a function, given what can follow it. -/
def signature (r : Rules) (e : Ending) : Parse (List ParameterNode × Option TypeSource) := do
  r.typeParameters
  let parameters ← r.parameters
  return (parameters, ← r.returnType? e)

/-! ## Object types -/

/-- The key in brackets of an index signature or of a mapped type. -/
def indexKey (r : Rules) : Parse Unit := do
  mark "["
  let t ← peek
  if !isLabel t then stuck
  if isKeyword "in" (← ahead 1) then
    if isOneOfWords softNames t then stuck
    discard (advance .typeName)
    skip
    r.type
    if ← acceptWord "as" then r.type
  else
    name
    r.annotation .never
  mark "]"

/-- An index signature or a mapped type after its `readonly`. Its type is that of a property that may
be left out if a question mark stands right before the colon, after a sign or not. -/
def indexSignature (r : Rules) (e : Ending) : Parse Unit := do
  r.indexKey
  let signed ← accept (isOneOfMarks ["+", "-"])
  let question ← accept fun t => isMark "?" t && (isGlued t || !signed)
  if (signed && !question) || (question && !isGlued (← peek)) then stuck
  r.annotation e

/-- Marks behind the name of a member of an object type. -/
def afterMemberName : List Char := "(<?:,;\x7d|".toList

def typeMember (r : Rules) : Parse Unit := do
  let e := Ending.plain
  let t ← peek
  let constructs : Parse Bool := do
    skip
    return !(← lineEnds e) && isOneOfMarks ["(", "<"] (← peek)
  if isOneOfMarks ["(", "<"] t then discard (r.signature e)
  else if isOneOfMarks ["+", "-"] t then
    skip
    word "readonly"
    r.indexSignature e
  else if isKeyword "abstract" t then
    skip
    word "new"
    discard (r.signature e)
  else if isKeyword "new" t && (← look constructs) then
    skip
    discard (r.signature e)
  else
    let words ← r.modifiers [methodSlots] [propertySlots] afterMemberName []
    let indexed ←
      if isMark "[" (← peek) && (words.isEmpty || words = ["readonly".toList]) then
        attempt (r.indexSignature e)
      else pure none
    if indexed.isNone then
      r.propertyName
      discard (acceptMark "?")
      if !(← lineEnds (nameEnding [propertySlots] words)) then
        if isOneOfMarks ["(", "<"] (← peek) then discard (r.signature e)
        else if !fits propertySlots words then stuck
        else if isMark ":" (← peek) then r.annotation e

/-- Members in braces, each ended by a comma, a semicolon or its line. -/
def objectType (r : Rules) : Parse Unit := do
  let close := isOneOfMarks ["\x7d", "|\x7d"]
  discard (expect (isOneOfMarks ["\x7b", "\x7b|"]))
  if ← accept (isOneOfMarks [",", ";"]) then
    if close (← peek) then stuck
  discard (manyUntil r.bound close do
    r.typeMember
    if !close (← peek) then
      if !(← acceptMark ",") then semicolon .plain)
  discard (expect close)

/-! ## Tuples, functions and templates -/

/-- One element of a tuple, which can have a name. -/
def tupleElement (r : Rules) : Parse Unit := do
  let spread ← acceptMark "..."
  let t ← peek
  let next ← ahead 1
  let named := if spread then isVariable t && !isOneOfWords typeKeywords t else isTypeName t
  if named && isMark ":" next then
    skip
    r.annotation .never
  else if named && isMark "?" next && isMark ":" (← ahead 2) && !spread then
    skip
    skip
    r.annotation .never
  else
    r.type
    if !spread then discard (acceptMark "?")

/-- A template literal type with types in its holes. -/
def templateType (r : Rules) : Parse Unit := template r.bound false r.type

/-- The type of a constructor after its `new`. -/
def constructorType (r : Rules) (e : Ending) : Parse Unit := do
  word "new"
  r.typeParameters
  discard r.parameters
  mark "=>"
  r.typeBefore e

/-- A parenthesis opens the parameters of a function type, given the two tokens behind it. A type that
the language defines, all alone, is a type in parentheses. -/
def startsParameters (t next : Token) : Bool :=
  !isOneOfWords typeKeywords t
    && !(isMark ")" next && isOneOfWords ("undefined" :: builtInTypes) t)

/-- A function type, if the tokens begin one. -/
def functionType? (r : Rules) (e : Ending) : Parse Bool := do
  let head ← attempt do
    if isMark "(" (← peek) && !startsParameters (← ahead 1) (← ahead 2) then stuck
    r.typeParameters
    discard r.parameters
    mark "=>"
  if head.isSome then discard (r.returned e)
  return head.isSome

/-! ## Operators -/

/-- What can follow a type that has been read. -/
inductive Suffix where
  /-- Brackets for an array or a lookup, or an operator. -/
  | brackets
  /-- An operator only. -/
  | operators
  /-- Nothing. -/
  | nothing
  deriving DecidableEq, Repr

def typeSuffixes (r : Rules) (e : Ending) : Parse Unit := do
  discard (iterate (fun (_ : Unit) => do
    if !isMark "[" (← peek) || (← lineEnds e) then return none
    else
      skip
      if !isMark "]" (← peek) then r.type
      mark "]"
      return some ()) r.bound ())

/-- A type that begins with a word. -/
def wordType (r : Rules) (e : Ending) : Parse Suffix := do
  let t ← peek
  if isOneOfWords (builtInTypes ++ valueTypes) t then
    skip
    return .brackets
  else if isKeyword "unique" t then
    skip
    word "symbol"
    return .brackets
  else if isKeyword "typeof" t then
    r.typeQuery e
    return .brackets
  else if isKeyword "import" t then
    r.importType e
    return .operators
  else if isKeyword "readonly" t then
    skip
    r.typeBefore e
    return .nothing
  else if isKeyword "abstract" t then
    skip
    r.constructorType e
    return .nothing
  else if isKeyword "new" t then
    r.constructorType e
    return .nothing
  else if isKeyword "infer" t then
    skip
    if (← peek).kind = .word then discard (advance .typeName) else stuck
    if (← lineEnds e) || !isKeyword "extends" (← peek) then return .operators
    else
      skip
      r.typeBefore e
      return .nothing
  else
    r.typeReference
    r.typeArguments? e
    return .brackets

/-- A type follows an opening parenthesis. What can begin the name of a parameter is none, such as a
module with more behind it. -/
def staysType (r : Rules) : Parse Bool := look do
  let asked ← acceptWord "typeof"
  if ← acceptWord "import" then
    if isMark "(" (← peek) then discard r.arguments
    let t ← peek
    return isMark ")" t || isKeyword "extends" t
  else return asked || !isOneOfWords operandWords (← peek)

/-- A type that no operator cuts further, and what can follow it. -/
def typeAtom (r : Rules) (e : Ending) : Parse Suffix := do
  let t ← peek
  match t.kind with
  | .string | .number =>
    skip
    return .brackets
  | .word => r.wordType e
  | .mark =>
    if isMark "(" t then
      let isFunction ← if e.arrow then pure false else r.functionType? e
      if isFunction then return .nothing
      else
        skip
        if !(← r.staysType) then stuck
        r.type
        mark ")"
        return .brackets
    else if startsMark '<' t then
      if ← r.functionType? e then return .nothing else stuck
    else if isOneOfMarks ["\x7b", "\x7b|"] t then
      r.objectType
      return .brackets
    else if isMark "[" t then
      skip
      -- a comma alone makes an empty tuple
      if isMark "," (← peek) && isMark "]" (← ahead 1) then skip
      discard (commaList r.bound ']' r.tupleElement)
      return .brackets
    else if isMark "\x60" t then
      r.templateType
      return .brackets
    else if isOneOfMarks ["-", "+"] t then
      skip
      discard (expect (·.kind = .number))
      return .brackets
    else if startsMark '*' t then
      cut '*'
      return .brackets
    else stuck
  | .privateName | .templatePiece | .regex | .comment | .bad | .endOfFile => stuck

/-- An operator between types, which may also stand before the first one. -/
def isTypeOperator (t : Token) : Bool :=
  (startsMark '|' t || startsMark '&' t) && !isMark "|\x7d" t

/-- Reads operators between or before types. -/
def skipTypeOperators (r : Rules) : Parse Unit := do
  discard (manyWhile r.bound isTypeOperator (skipChars .mark 1))

/-- A type with its prefixes and suffixes. -/
def typeOperand (r : Rules) (e : Ending) : Parse Suffix := do
  let prefixed ← iterate (fun _ => do
    let t ← peek
    if isKeyword "keyof" t then
      skip
      return some true
    else if startsMark '?' t then
      cut '?'
      return some true
    else if isTypeOperator t then
      r.skipTypeOperators
      return some false
    else return none) r.bound false
  match ← r.typeAtom e with
  | .brackets =>
    r.typeSuffixes e
    return .operators
  | after => if prefixed then stuck else return after

/-- The branches of a conditional type after its `extends`. -/
def typeBranches (r : Rules) (e : Ending) : Parse Unit := do
  r.type
  cut '?'
  r.type
  mark ":"
  r.typeBefore e

/-- Any type, a conditional one included. Where an expression goes on behind a type, `&&` and `||` are
operators of that. -/
def typeRule (r : Rules) (e : Ending) : Parse Unit := do
  let goesOn (t : Token) : Bool :=
    isTypeOperator t && !(e.operator && isOneOfMarks ["&&", "||", "&&=", "||="] t)
  discard (iterate (fun after => do
    let t ← peek
    if after = Suffix.nothing || (← lineEnds e) then return none
    else if goesOn t then
      r.skipTypeOperators
      return some (← r.typeOperand e)
    else if isKeyword "extends" t then
      skip
      r.typeBranches e
      return some .nothing
    else return none) r.bound (← do
      r.skipTypeOperators
      r.typeOperand e))

end NestClient.TypeScript.Rules
