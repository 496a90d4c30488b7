import NestClient.TypeScript.Grammar.LineEnd
import NestClient.TypeScript.Grammar.Precedence
import NestClient.TypeScript.Tree

/-! Reading a source from left to right. A cursor stands between the tokens read, each with the role
it was read in, and the source still to read, of which the next token is known; nothing is ever
dropped. A cursor that no reading moves on tells where the source is at fault. -/

namespace NestClient.TypeScript

/-! ## The cursor -/

/-- What a token is read as. -/
inductive LeafRole where
  | plain
  /-- The name of a type. -/
  | typeName
  /-- The namespace of a two-part type name. -/
  | space
  /-- The second part of a two-part type name. -/
  | memberName
  deriving DecidableEq, Repr

/-- A token that has been read. -/
structure Leaf where
  token : Token
  role : LeafRole
  deriving DecidableEq, Repr

structure Cursor where
  /-- The tokens read, last first. -/
  read : List Leaf
  next : Token
  /-- The source behind the next token. -/
  rest : Text
  deriving Repr

namespace Cursor

def start (source : Text) : Cursor :=
  let lead := Lexer.interpreterLine source
  let (next, rest) := Lexer.token 1 0 lead (source.drop lead.length)
  ⟨[], next, rest⟩

/-- All source that is still to read. -/
def unread (c : Cursor) : Text := c.next.trivia ++ c.next.text ++ c.rest

/-- Reads so many characters, from the next token on, as one token. -/
def take (c : Cursor) (kind : TokenKind) (role : LeafRole) (size : Nat) : Cursor :=
  let source := c.next.text ++ c.rest
  let text := source.take size
  let token : Token := { c.next with kind, text }
  let (next, rest) :=
    Lexer.token (token.line + lineCount text) (token.place + size) [] (source.drop size)
  ⟨⟨token, role⟩ :: c.read, next, rest⟩

/-- The cursor with no blanks before the next token, which they belong to. -/
def keepBlanks (c : Cursor) : Cursor :=
  let blanks := c.next.trivia
  { c with
    next := { c.next with
      trivia := [], text := blanks ++ c.next.text
      line := c.next.line - lineCount blanks, place := c.next.place - blanks.length } }

/-- Reads the comments at the end of the line as a token of their own. -/
def takeComments (c : Cursor) : Cursor :=
  let trivia := c.next.trivia
  match LineEnd.commentsLength 0 0 .blank trivia with
  | 0 => c
  | size =>
    let lead := (trivia.take size).takeWhile isSpace
    let comments := (trivia.take size).drop lead.length
    let start := c.next.place - trivia.length + lead.length
    let line := c.next.line - lineCount (trivia.drop lead.length)
    { c with
      read := ⟨⟨.comment, lead, comments, line, start⟩, .plain⟩ :: c.read
      next := { c.next with trivia := trivia.drop size } }

/-- The token a number of places behind the next one. -/
def ahead (c : Cursor) : Nat → Token
  | 0 => c.next
  | n + 1 => ahead (c.take c.next.kind .plain c.next.text.length) n

end Cursor

/-- A reader: it moves the cursor or is stuck somewhere. -/
abbrev Parse (α : Type) := StateT Cursor (Except Cursor) α

namespace Parse

/-! ## Tokens -/

/-- The next token, which stays unread. -/
def peek : Parse Token := fun c => .ok (c.next, c)

/-- The token a number of places ahead. -/
def ahead (n : Nat) : Parse Token := fun c => .ok (c.ahead n, c)

/-- No reading goes on from here. -/
def stuck {α : Type} : Parse α := fun c => .error c

/-- Reads one token in a role. The end of the file cannot be read. -/
def advance (role : LeafRole) : Parse Token := fun c =>
  if c.next.kind = .endOfFile then .error c
  else .ok (c.next, c.take c.next.kind role c.next.text.length)

/-- Reads one token without a role of its own. -/
def skip : Parse Unit := do discard (advance .plain)

/-- Reads so many characters from the next token on. -/
def skipChars (kind : TokenKind) (size : Nat) : Parse Unit := modify (·.take kind .plain size)

/-- Reads the next token if it passes a test. -/
def accept (test : Token → Bool) : Parse Bool := do
  if test (← peek) then
    skip
    return true
  else return false

/-- Reads the next token, which has to pass a test. -/
def expect (test : Token → Bool) : Parse Token := do
  if test (← peek) then advance .plain else stuck

def mark (m : String) : Parse Unit := do discard (expect (isMark m))

def word (w : String) : Parse Unit := do discard (expect (isKeyword w))

def acceptMark (m : String) : Parse Bool := accept (isMark m)

def acceptWord (w : String) : Parse Bool := accept (isKeyword w)

/-- Any word, taken for a name. -/
def name : Parse Unit := do discard (expect (·.kind = .word))

/-- Any word, taken for the name of what is declared. -/
def declaredName : Parse Name := fun c =>
  if c.next.kind = .word then
    let name := Name.atStart (c.next.text ++ c.rest)
    .ok (name, c.take .word .plain name.text.length)
  else .error c

/-- Reads one character of a mark, which may be a part of a longer one. -/
def cut (c : Char) : Parse Unit := do
  if startsMark c (← peek) then skipChars .mark 1 else stuck

/-- Reads one character of a mark if the next token begins with it. -/
def acceptCut (c : Char) : Parse Bool := do
  if startsMark c (← peek) then
    skipChars .mark 1
    return true
  else return false

/-! ## Choices and repetitions -/

/-- The cursor that lies further on. -/
def further (s t : Cursor) : Cursor := if s.next.place < t.next.place then t else s

/-- The first reading that works. Where neither does, the one that came further is at fault. -/
def orElse {α : Type} (p q : Parse α) : Parse α := fun c =>
  match p c with
  | .ok r => .ok r
  | .error s =>
    match q c with
    | .ok r => .ok r
    | .error t => .error (further s t)

/-- Reads if that works and else leaves the cursor where it is. -/
def attempt {α : Type} (p : Parse α) : Parse (Option α) := orElse (some <$> p) (pure none)

/-- Reads and goes back to where the cursor was. -/
def look {α : Type} (p : Parse α) : Parse α := fun c => (fun (a, _) => (a, c)) <$> p c

/-- Repeats a step as long as it gives something to go on with. -/
def iterate {α : Type} (step : α → Parse (Option α)) : Nat → α → Parse α
  | 0, _ => stuck
  | bound + 1, a => do
    match ← step a with
    | some b => iterate step bound b
    | none => return a

/-- Reads items up to a token that passes a test, which stays unread. -/
def manyUntil {α : Type} (bound : Nat) (stop : Token → Bool) (item : Parse α) :
    Parse (List α) := do
  let items ← iterate (fun items => do
    if stop (← peek) then return none
    else return some ((← item) :: items)) bound []
  return items.reverse

/-- Reads items as long as the next token passes a test. -/
def manyWhile {α : Type} (bound : Nat) (start : Token → Bool) (item : Parse α) :
    Parse (List α) :=
  manyUntil bound (fun t => !start t) item

/-- Items with commas between them up to a closing mark, which is read too. A comma may end the
list. -/
def commaList {α : Type} (bound : Nat) (close : Char) (item : Parse α) : Parse (List α) := do
  let items ← manyUntil bound (startsMark close) do
    let a ← item
    if !(← acceptMark ",") then
      if !startsMark close (← peek) then stuck
    return a
  cut close
  return items

/-- One or more items with commas between them up to a closing mark, as in `commaList`. -/
def commaList1 {α : Type} (bound : Nat) (close : Char) (item : Parse α) : Parse (List α) := do
  if startsMark close (← peek) then stuck
  commaList bound close item

/-- Items with commas between them up to a closing mark, where any item can be left out. -/
def sparseList {α : Type} (bound : Nat) (close : Char) (item : Parse α) : Parse (List α) := do
  let items ← commaList bound close do
    let t ← peek
    if isMark "," t || startsMark close t then return none
    else some <$> item
  return items.filterMap id

/-- One or more items with commas between them. -/
def commas {α : Type} (bound : Nat) (item : Parse α) : Parse (List α) := do
  let first ← item
  return first :: (← manyWhile bound (isMark ",") do
    mark ","
    item)

/-! ## Ends of lines -/

/-- A semicolon is left out here. -/
def lineEnds (e : Ending) : Parse Bool := fun c => .ok (e.semicolon && e.leftOut c.unread, c)

/-- The end of a statement or a member: a semicolon, or a place where it may be left out. -/
def semicolon (e : Ending) : Parse Unit := do
  if !(← lineEnds e) then mark ";"

/-! ## Sources -/

/-- The tokens read since a place. -/
def leavesSince (place : Nat) : Parse (List Leaf) := fun c =>
  .ok ((c.read.takeWhile fun leaf => place ≤ leaf.token.place).reverse, c)

/-- The source of leaves, without the trivia before the first. -/
def sourceOf : List Leaf → Text
  | [] => []
  | first :: more =>
    first.token.text ++ more.flatMap fun leaf => leaf.token.trivia ++ leaf.token.text

def withSource {α : Type} (p : Parse α) : Parse (α × Text) := do
  let start ← peek
  let a ← p
  return (a, sourceOf (← leavesSince start.place))

/-- The pieces of a type that begins with the first of these leaves. -/
def piecesFrom (trivia : Text) (leaf : Leaf) : List Leaf → TypeSource
  | [] => [.plain trivia, piece leaf]
  | [next] => .plain trivia :: piece leaf :: [.plain next.token.trivia, piece next]
  | dot :: member :: more =>
    if leaf.role = .space then
      let written := leaf.token.text ++ dot.token.trivia ++ dot.token.text ++ member.token.trivia
        ++ member.token.text
      .plain trivia :: .qualified leaf.token.text member.token.text written ::
        match more with
        | [] => []
        | next :: others => piecesFrom next.token.trivia next others
    else .plain trivia :: piece leaf :: piecesFrom dot.token.trivia dot (member :: more)
where
  /-- The piece of a leaf on its own. -/
  piece (leaf : Leaf) : TypePiece :=
    if leaf.role = .typeName then .name leaf.token.text else .plain leaf.token.text

/-- Reads a type and gives its source. -/
def typeSource (p : Parse Unit) : Parse TypeSource := do
  let start ← peek
  p
  match ← leavesSince start.place with
  | [] => return []
  | first :: more => return piecesFrom [] first more

/-! ## Regular expressions and templates -/

/-- Reads a regular expression that the next token begins. -/
def regex : Parse Unit := do
  match Lexer.regexLength ((← peek).text ++ (← get).rest) with
  | some size => skipChars .regex size
  | none => stuck

/-- Reads a piece of a template and tells whether it is the last one. Types in templates know no
escapes. -/
def templatePiece (escapes : Bool) : Parse Bool := do
  let start ← get
  modify Cursor.keepBlanks
  let source := (← get).unread
  match Lexer.pieceEnd escapes 0 source with
  | some size =>
    skipChars .templatePiece size
    return (source.take size).getLast? = some '\x60'
  | none => throw start

/-- Reads a template with something in its holes. -/
def template (bound : Nat) (escapes : Bool) (hole : Parse Unit) : Parse Unit := do
  mark "\x60"
  let rec holes : Nat → Parse Unit
    | 0 => stuck
    | n + 1 => do
      if !(← templatePiece escapes) then
        hole
        if isMark "\x7d" (← peek) then skip else stuck
        holes n
  holes bound

end Parse

end NestClient.TypeScript
