import NestClient.TypeScript.Grammar.Types

/-! Classes and their members. -/

namespace NestClient.TypeScript.Rules

open Parse

/-! ## Modifiers -/

/-- What may stand before the name of a method without a body in an abstract class. -/
def abstractSlots : Slots := [accessWords, ["abstract"], ["override"], ["get", "set", "*"]]

def fieldSlots : List Slots :=
  [[["declare"], accessWords], [accessWords, ["declare"]]].flatMap fun outer =>
    [[["static"], ["override"], ["readonly"]], [["abstract"], ["readonly"]],
      [["readonly"], ["abstract"]], [["accessor"]]].map fun inner => outer ++ inner

/-- Marks behind the name of a class member. -/
def afterFieldName : List Char := "(<?!:=;,\x7d".toList

/-! ## Members -/

def memberEnd (e : Ending) : Parse Unit := do
  if !(← lineEnds e) then discard (expect (isOneOfMarks [",", ";"]))

def fieldRest (r : Rules) (words : List Text) : Parse Member := do
  if !fieldSlots.any fun s => fits s words then stuck
  if isMark ":" (← peek) then r.annotation .plain
  let valued := (← r.initializer true).isSome
  memberEnd (if valued then .operand else .plain)
  return .other

/-- The rest of a method behind its name. One that is decorated has a body. -/
def methodRest (r : Rules) (decorated : Bool) (words : List Text) (name : Text) (line : Nat) :
    Parse Member := do
  let abstract := words.contains "abstract".toList && !decorated
  let e : Ending := if decorated then .never else if abstract then .plain else .signature
  let (parameters, returnType) ← r.signature e
  let plain := fits methodSlots words
  if plain && isMark "\x7b" (← peek) && !(← lineEnds e) then
    r.block
    discard (acceptMark ";")
    return .method { name, parameters, returnType, line }
  else if !decorated && (plain || abstract && fits abstractSlots words) then
    memberEnd e
    return .other
  else stuck

/-- A member after its decorators: a method with a body, a signature or a field. -/
def memberRule (r : Rules) (decorated : Bool) : Parse Member := do
  let line := (← peek).line
  if isOneOfMarks ["+", "-"] (← peek) && !decorated then
    skip
    word "readonly"
    r.indexSignature .plain
    memberEnd .plain
    return .other
  else
    let slots := methodSlots :: (if decorated then [] else [abstractSlots])
    let words ← r.modifiers slots fieldSlots afterFieldName ["abstract", "accessor"]
    let indexed ←
      if isMark "[" (← peek) && !decorated && (words.isEmpty || words = ["readonly".toList]) then
        attempt (r.indexSignature .plain)
      else pure none
    if indexed.isSome then
      memberEnd .plain
      return .other
    else
      let (_, name) ← withSource r.propertyName
      let e := nameEnding fieldSlots words
      if ← lineEnds e then r.fieldRest words
      else
        let sure ← acceptCut '!'
        if !sure then discard (acceptCut '?')
        if isOneOfMarks ["(", "<"] (← peek) && !sure && !(← lineEnds e) then
          r.methodRest decorated words name line
        else r.fieldRest words

/-- The comments before the next token. -/
def comments : Parse (List Member) := do
  return .replicate (Lexer.commentCount .blank (← peek).trivia) .comment

/-- The decorators before a member, each with the comments behind it. -/
def memberDecorators (r : Rules) : Parse (List (DecoratorNode × List Member)) :=
  manyWhile r.bound (isMark "@") do return (← r.decorator, ← comments)

/-- A member with the decorators before it. Those of a method precede it; those of a field belong to
it, with the comments between them. -/
def decoratedMember (r : Rules) : Parse (List Member) := do
  let decorators ← r.memberDecorators
  match ← r.memberRule !decorators.isEmpty with
  | .method m => return decorators.flatMap (fun (d, behind) => .decorator d :: behind) ++ [.method m]
  | member => return [member]

/-- What a member brings into a class body, with the comments before it. A semicolon may stand for
one. -/
def members (r : Rules) : Parse (List Member) := do
  let initializes : Parse Bool := do
    skip
    return isMark "\x7b" (← peek) && !(← lineEnds .plain)
  let before ← comments
  if ← acceptMark ";" then return before
  else if isKeyword "static" (← peek) && (← look initializes) then
    skip
    r.block
    return before ++ [.other]
  else return before ++ (← r.decoratedMember)

def classBody (r : Rules) : Parse (List Member) := do
  mark "\x7b"
  let members ← manyUntil r.bound (isMark "\x7d") r.members
  let behind ← comments
  mark "\x7d"
  return members.flatten ++ behind

/-! ## Heads -/

/-- What a class extends: an expression and type arguments for it. -/
def classBase (r : Rules) : Parse Unit := do
  discard (r.read (.expression .base false))
  r.typeArguments? .never

def classRest (r : Rules) : Parse (List Member) := do
  r.typeParameters
  if ← acceptWord "extends" then discard (commas r.bound r.classBase)
  if ← acceptWord "implements" then discard (commas r.bound r.type)
  r.classBody

end NestClient.TypeScript.Rules
