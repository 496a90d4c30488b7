import NestClient.TypeScript.Grammar.Expressions

/-! Statements and declarations. Many of the words that begin a declaration can be names as well; they
are where a semicolon is left out right behind them, or where nothing follows that the declaration
could go on with. -/

namespace NestClient.TypeScript.Rules

open Parse

/-! ## Classes and variables -/

/-- A class declaration from its `abstract` or `class` on. -/
def classDeclaration (r : Rules) (decorators : List DecoratorNode) (line : Nat) :
    Parse ClassNode := do
  discard (acceptWord "abstract")
  word "class"
  let name ← declaredName
  return { name, decorators, members := ← r.classRest, line }

/-- The token begins the declaration of a class, given the one behind it and whether a class without a
name can stand here. -/
def startsClass (nameless : Bool) (t next : Token) : Bool :=
  isKeyword "abstract" t || isKeyword "class" t && next.kind = .word
    && !(nameless && isOneOfWords ["extends", "implements"] next)

/-- A declared variable. Behind a name, `!` stands before a type, and then there is no value. -/
def declarator (r : Rules) : Parse (Text × Option Expr) := do
  let first ← peek
  let (_, pattern) ← withSource r.binding
  if first.kind = .word && isMark "!" (← peek) && !(← lineEnds .plain) then
    skip
    r.annotation .plain
    return (pattern, none)
  else
    if isMark ":" (← peek) then r.annotation .plain
    return (pattern, ← r.initializer true)

/-- Variables from the keyword on. -/
def declarations (r : Rules) : Parse Statement := do
  skip
  let declared ← commas r.bound r.declarator
  let valued := declared.getLast?.any (·.2.isSome)
  semicolon (if valued then .operand else .plain)
  return .bindings declared

/-- The token begins a declaration of variables, given the one behind it. -/
def startsVariables (t next : Token) : Bool :=
  isOneOfWords ["const", "var"] t
    || isKeyword "let" t
      && (next.kind = .word && !isOneOfWords operatorWords next || isOneOfMarks ["\x7b", "["] next)

/-! ## Other declarations -/

/-- A function with a body, or its signature alone; a generator has a body. -/
def functionDeclaration (r : Rules) : Parse Unit := do
  discard (acceptWord "async")
  word "function"
  let generator ← acceptMark "*"
  name
  discard (r.signature (if generator then .never else .signature))
  if generator || isMark "\x7b" (← peek) then r.block else semicolon .signature

def interfaceDeclaration (r : Rules) : Parse Unit := do
  word "interface"
  name
  r.typeParameters
  if ← acceptWord "extends" then
    discard (commas r.bound do
      r.typeName
      r.typeArguments? .never)
  r.objectType

def typeAlias (r : Rules) : Parse Unit := do
  word "type"
  name
  r.typeParameters
  mark "="
  r.typeBefore .plain
  semicolon .plain

def enumDeclaration (r : Rules) : Parse Unit := do
  discard (acceptWord "const")
  word "enum"
  name
  mark "\x7b"
  discard (commaList r.bound '}' do
    r.propertyName
    r.initializer false)

/-- A namespace or a module, with or without a body. -/
def namespaceDeclaration (r : Rules) : Parse Unit := do
  skip
  if !(← accept (·.kind = .string)) then r.dottedName
  if isMark "\x7b" (← peek) then r.block

/-- Another name for something in a namespace, from `import` on. -/
def nameAlias (r : Rules) : Parse Unit := do
  word "import"
  name
  mark "="
  if isKeyword "require" (← peek) then stuck
  r.dottedName
  semicolon .plain

/-- The type of a property of the module at hand. -/
def moduleProperty (r : Rules) : Parse Unit := do
  word "module"
  mark "."
  name
  r.annotation .plain
  semicolon .plain

/-- Words that begin a declaration. -/
def declarationWords : List String := [
  "abstract", "async", "class", "const", "declare", "enum", "function", "import", "interface", "let",
  "module", "namespace", "type", "var"]

/-- Words that begin a declaration and can be names as well. -/
def softWords : List String := ["async", "declare", "let", "module", "namespace", "type"]

/-- The two tokens behind decorators. -/
def behindDecorators (r : Rules) : Parse (Token × Token) := look do
  discard r.decorators
  return (← peek, ← ahead 1)

/-- The token is a name with a semicolon left out behind it. -/
def standsAlone : Parse Bool := look do
  if !isOneOfWords softWords (← peek) then return false
  else
    skip
    lineEnds .operand

/-- A function begins here, after an `async` or not, given whether it needs a name. -/
def startsFunction (named : Bool) : Parse Bool := look do
  discard (acceptWord "async")
  let function ← acceptWord "function"
  discard (acceptMark "*")
  return function && (!named || (← peek).kind = .word)

/-- A declaration, if the tokens begin one, other than one behind `declare`. Where an expression can
stand in its place, some of its words may begin that. -/
def declarationProper? (r : Rules) (outer : List DecoratorNode) (orExpression : Bool) :
    Parse (Option Statement) := do
  let start ← peek
  let (t, next) ← r.behindDecorators
  let follows := next.kind = .word && !(orExpression && isOneOfWords operatorWords next)
  let other (p : Parse Unit) : Parse (Option Statement) := do
    p
    return some .other
  if startsClass orExpression t next then
    let own ← r.decorators
    return some (.classDecl outer (← r.classDeclaration own start.line))
  else if isMark "@" start then return none
  else if orExpression && (← standsAlone) then return none
  else if ← startsFunction orExpression then other r.functionDeclaration
  else if isKeyword "interface" t then other r.interfaceDeclaration
  else if isKeyword "type" t && follows then other r.typeAlias
  else if isKeyword "enum" t || isKeyword "const" t && isKeyword "enum" next then
    other r.enumDeclaration
  else if startsVariables t next then some <$> r.declarations
  else if isOneOfWords ["module", "namespace"] t && (follows || next.kind = .string) then
    other r.namespaceDeclaration
  else if isKeyword "import" t && next.kind = .word then other r.nameAlias
  else return none

/-- A declaration of something that exists elsewhere, from `declare` on: the word can be repeated. -/
def ambient (r : Rules) : Parse Unit := do
  discard (manyWhile r.bound (isKeyword "declare") skip)
  let t ← peek
  if isKeyword "global" t then
    skip
    r.block
  else if isKeyword "module" t && isMark "." (← ahead 1) then r.moduleProperty
  else
    if (← r.declarationProper? [] false).isNone then stuck

/-- A declaration, if the tokens begin one. -/
def declaration? (r : Rules) (outer : List DecoratorNode) (orExpression : Bool) :
    Parse (Option Statement) := do
  let next ← ahead 1
  if isKeyword "declare" (← peek)
      && (isMark "@" next || isOneOfWords ("global" :: declarationWords) next)
      && !(orExpression && (← standsAlone)) then
    r.ambient
    return some .other
  else r.declarationProper? outer orExpression

/-! ## Imports -/

/-- The name of a module, with its quotes. -/
def moduleName : Parse Text := do return (← expect (·.kind = .string)).text

/-- The name of something in a module, which may be any text in quotes. -/
def moduleMember : Parse Token := expect fun t => t.kind = .word || t.kind = .string

/-- The end of an import, with attributes before it or not. -/
def importEnd (r : Rules) : Parse Unit := do
  if !(← lineEnds .plain) && isKeyword "with" (← peek) then
    skip
    discard r.objectLiteral
  semicolon .plain

/-- Names in braces with commas between them. A comma alone makes an empty list. -/
def nameList {α : Type} (r : Rules) (item : Parse α) : Parse (List α) := do
  mark "\x7b"
  if ← acceptMark "," then
    mark "\x7d"
    return []
  else commaList r.bound '}' item

/-- One imported name with its alias. Text in quotes and `default` need one; `type` is a modifier
unless it is itself the name. -/
def importSpecifier : Parse (Text × Option Text) := do
  let t ← peek
  let next ← ahead 1
  if isKeyword "typeof" t
      || isKeyword "type" t && !isKeyword "as" next && (next.kind = .word || next.kind = .string) then
    skip
  let imported ← moduleMember
  if ← acceptWord "as" then
    return (imported.text, some (← expect (·.kind = .word)).text)
  else if imported.kind = .string || isKeyword "default" imported then stuck
  else return (imported.text, none)

/-- `* as name`. -/
def namespaceImport : Parse Text := do
  mark "*"
  word "as"
  return (← expect (·.kind = .word)).text

/-- What an import takes from its module. -/
def importClause (r : Rules) : Parse ImportNode := do
  if isMark "*" (← peek) then return { namespaceName := some (← namespaceImport) }
  else if isMark "\x7b" (← peek) then return { named := ← r.nameList importSpecifier }
  else
    let defaultName := some (← expect (·.kind = .word)).text
    if ← acceptMark "," then
      if isMark "*" (← peek) then return { defaultName, namespaceName := some (← namespaceImport) }
      else return { defaultName, named := ← r.nameList importSpecifier }
    else return { defaultName }

/-- What an import binds, from the clause or the name on: something from a module, a module as a
whole, or another name for something. -/
def importBody (r : Rules) (modified : Bool) : Parse Statement := do
  let t ← peek
  if t.kind = .word && isMark "=" (← ahead 1) then
    skip
    skip
    if ← acceptWord "require" then
      mark "("
      discard moduleName
      mark ")"
      r.importEnd
      return .importing {}
    else if modified then stuck
    else
      r.dottedName
      semicolon .plain
      return .other
  else
    let i ← r.importClause
    word "from"
    let specifier ← moduleName
    r.importEnd
    return .importing { i with specifier }

/-- An import after its keyword. -/
def importStatement (r : Rules) : Parse Statement := do
  let t ← peek
  let next ← ahead 1
  -- `type` is a modifier unless the clause begins with that name
  let modified :=
    isKeyword "typeof" t || isKeyword "type" t && !(isMark "," next || isKeyword "from" next)
  if modified then skip
  if (← peek).kind = .string then
    let specifier ← moduleName
    r.importEnd
    return .importing { specifier }
  else r.importBody modified

/-! ## Exports -/

/-- One exported name with its alias. -/
def exportSpecifier : Parse Unit := do
  discard (accept (isOneOfWords ["type", "typeof"]))
  discard moduleMember
  if ← acceptWord "as" then discard moduleMember

/-- Names in braces, with the module they come from if there is one. -/
def exportList (r : Rules) : Parse Unit := do
  discard (r.nameList exportSpecifier)
  if !(← lineEnds .plain) then
    if ← acceptWord "from" then discard moduleName
  semicolon .plain

/-- Everything a module exports. -/
def exportAll : Parse Unit := do
  mark "*"
  if ← acceptWord "as" then discard moduleMember
  word "from"
  discard moduleName
  semicolon .plain

/-- A declaration, or the default export: a declaration or a value. -/
def exported (r : Rules) (outer : List DecoratorNode) : Parse Statement := do
  let isDefault ← acceptWord "default"
  match ← r.declaration? outer isDefault with
  | some s => return s
  | none =>
    if !isDefault then stuck
    discard (r.expression true)
    semicolon .operand
    return .other

/-- An export after its keyword. -/
def exportRest (r : Rules) : Parse Statement := do
  let t ← peek
  let next ← ahead 1
  if isMark "=" t then
    skip
    discard (r.expression true)
    semicolon .operand
    return .other
  else if isKeyword "as" t then
    skip
    word "namespace"
    name
    semicolon .plain
    return .other
  else if isMark "*" t then
    exportAll
    return .other
  else if isMark "\x7b" t then
    r.exportList
    return .other
  else if isKeyword "type" t && isMark "\x7b" next then
    skip
    r.exportList
    return .other
  else if isKeyword "import" t && isKeyword "import" next then
    skip
    r.nameAlias
    return .other
  else r.exported []

/-- The token behind `export` goes on with an export, so that `export` is no name. -/
def startsExport (t : Token) : Bool :=
  t.kind = .word && !isOneOfWords ["in", "instanceof", "satisfies"] t
    || isOneOfMarks ["*", "\x7b", "=", "@"] t

/-! ## Control -/

/-- The head of a loop over the elements or the keys of something, from its parenthesis on. -/
def eachHead (r : Rules) : Parse Unit := do
  mark "("
  let t ← peek
  if startsVariables t (← ahead 1) then
    skip
    r.binding
    if isKeyword "var" t then
      if ← lineEnds .plain then stuck
      if ← acceptMark "=" then
        discard (r.read (.expression (.binary Rank.relation) false))
  else if isOneOfMarks ["\x7b", "["] t then r.pattern
  else
    let e ← r.read (.expression .place false)
    if !isAssignable e then stuck
  discard (expect (isOneOfWords ["in", "of"]))
  discard (r.sequence false)
  mark ")"

/-- The head of a loop with a start, a condition and a step, from its parenthesis on. -/
def countHead (r : Rules) : Parse Unit := do
  mark "("
  let t ← peek
  if startsVariables t (← ahead 1) then discard r.declarations
  else
    if !isMark ";" t then discard (r.sequence false)
    mark ";"
  if !isMark ";" (← peek) then discard (r.sequence false)
  mark ";"
  if !isMark ")" (← peek) then discard (r.sequence false)
  mark ")"

def forLoop (r : Rules) : Parse Unit := do
  word "for"
  if ← acceptWord "await" then r.eachHead else orElse r.eachHead r.countHead
  discard r.statement

/-- The cases of a `switch`. -/
def switchBody (r : Rules) : Parse Unit := do
  mark "\x7b"
  discard (manyUntil r.bound (isMark "\x7d") do
    if !(← acceptWord "default") then
      word "case"
      discard (r.sequence false)
    mark ":"
    discard (manyUntil r.bound
      (fun t => isOneOfWords ["case", "default"] t || isMark "\x7d" t) r.statement))
  mark "\x7d"

/-- A `try` with what catches and what follows. -/
def tryBlock (r : Rules) : Parse Unit := do
  word "try"
  r.block
  if ← acceptWord "catch" then
    if ← acceptMark "(" then
      r.binding
      if isMark ":" (← peek) then r.annotation .never
      mark ")"
    r.block
  if ← acceptWord "finally" then r.block

/-- A statement that a keyword begins, if the token is one. -/
def controlled? (r : Rules) : Parse Bool := do
  let t ← peek
  if isKeyword "if" t then
    skip
    discard r.parenthesized
    discard r.statement
    if ← acceptWord "else" then discard r.statement
    return true
  else if isOneOfWords ["while", "with"] t then
    skip
    discard r.parenthesized
    discard r.statement
    return true
  else if isKeyword "for" t then
    r.forLoop
    return true
  else if isKeyword "do" t then
    skip
    discard r.statement
    word "while"
    discard r.parenthesized
    discard (acceptMark ";")
    return true
  else if isKeyword "switch" t then
    skip
    discard r.parenthesized
    r.switchBody
    return true
  else if isKeyword "try" t then
    r.tryBlock
    return true
  else if isKeyword "return" t then
    skip
    if ← lineEnds .plain then return true
    else if ← acceptMark ";" then return true
    else
      discard (r.sequence true)
      semicolon .operand
      return true
  else if isKeyword "throw" t then
    skip
    discard (r.sequence true)
    semicolon .operand
    return true
  else if isOneOfWords ["break", "continue"] t then
    skip
    if !(← lineEnds .plain) then discard (accept (·.kind = .word))
    semicolon .plain
    return true
  else if isKeyword "debugger" t then
    skip
    semicolon .plain
    return true
  else return false

/-! ## Statements -/

def expressionStatement (r : Rules) : Parse Statement := do
  discard (r.sequence true)
  semicolon .operand
  return .other

/-- The two tokens behind a brace, and a third, show a member of an object. -/
def startsMember (t next second : Token) : Bool :=
  isOneOfMarks ["...", ","] t || isMark ":" next
    || t.kind = .word && !isOneOfWords ["catch", "for", "if", "switch", "while", "with"] t
      && (isMark "(" next
        || isOneOfWords ["async", "get", "set"] t && next.kind = .word && isMark "(" second)

def blockOrObject (r : Rules) : Parse Statement := do
  let block : Parse Statement := do
    r.block
    return .other
  if startsMember (← ahead 1) (← ahead 2) (← ahead 3) then orElse block r.expressionStatement
  else block

/-- A statement that is neither a declaration nor begun by a keyword: one with a label or an
expression. -/
def plainStatement (r : Rules) : Parse Statement := do
  if isLabel (← peek) && isMark ":" (← ahead 1) then
    skip
    skip
    discard r.statement
    return .other
  else r.expressionStatement

/-- The token goes on with an expression and begins no statement. -/
def extendsOperand (t : Token) : Bool :=
  isOneOfWords operatorWords t || isOneOfMarks [".", "?.", ",", "?", "??", "||", "&&", "|", "^", "&",
    "==", "===", "!=", "!==", "<=", ">", ">=", "<<", ">>", ">>>", "*", "**", "%"] t

/-- What the token begins can be an operand as well as a declaration. -/
def isTwofold (t : Token) : Bool :=
  isMark "@" t || isOneOfWords ["async", "class", "function", "namespace"] t

/-- A declaration, or something else where there is none or where it turns out to be an operand. -/
def declarationOr (r : Rules) (p : Parse Statement) : Parse Statement := do
  let start ← get
  match ← r.declaration? [] true with
  | some s =>
    if isTwofold start.next && extendsOperand (← peek) && !(← lineEnds .operand) then
      set start
      p
    else return s
  | none => p

/-- A declaration or an expression behind decorators, or an export of one. -/
def decorated (r : Rules) : Parse Statement := do
  let (t, _) ← r.behindDecorators
  if isKeyword "export" t then
    let outer ← r.decorators
    skip
    r.exported outer
  else r.declarationOr r.expressionStatement

def statementRule (r : Rules) : Parse Statement := do
  let t ← peek
  let next ← ahead 1
  if isMark "\x7b" t then r.blockOrObject
  else if ← acceptMark ";" then return .other
  else if isMark "@" t then r.decorated
  else if isKeyword "import" t && !isOneOfMarks ["(", ".", "?.", "<"] next then
    skip
    r.importStatement
  else if isKeyword "export" t && startsExport next && !(← look do skip; lineEnds .operand) then
    skip
    r.exportRest
  else if ← r.controlled? then return .other
  else r.declarationOr r.plainStatement

end NestClient.TypeScript.Rules
