import NestClient.TypeScript.Lexer

/-! Where a semicolon may be left out: at the end of the source, before a closing brace, and at the
end of a line unless the next one goes on with what stands on it. -/

namespace NestClient.TypeScript

/-- What can come next at some place of the grammar, as far as the end of a line depends on it. -/
structure Ending where
  /-- A semicolon, so that it may be left out. -/
  semicolon : Bool := false
  /-- An operator between two operands. -/
  operator : Bool := false
  /-- The body of a function that may have none. -/
  body : Bool := false
  /-- The arrow of a function whose return type is read. No function type ends there, as its own
  arrow would take that place. -/
  arrow : Bool := false
  deriving DecidableEq, Repr

namespace Ending

/-- Nothing can end here. -/
def never : Ending := {}

/-- The end of a statement or a member, but after no operand. -/
def plain : Ending := { semicolon := true }

/-- The end of a statement or a member after an operand. -/
def operand : Ending := { semicolon := true, operator := true }

/-- The end of a function without a body. -/
def signature : Ending := { semicolon := true, body := true }

end Ending

namespace LineEnd

open Lexer (Space)

/-! ## To the end of the line -/

/-- White space between lines; a few of the blanks between tokens are none. -/
def isLineSpace (c : Char) : Bool :=
  let n := c.toNat
  (9 ≤ n && n ≤ 13) || (8192 ≤ n && n ≤ 8202 && n ≠ 8199)
    || [32, 5760, 8232, 8233, 8287, 12288].contains n

/-- What follows the blanks and comments on the rest of a line. -/
inductive Rest where
  /-- The next line. -/
  | line (t : Text)
  /-- Something on the same line. -/
  | more (t : Text)
  /-- Something that other blanks lead to than those between lines. -/
  | stray

/-- Reads up to the end of the line or the first thing that is no blank, given whether only white
space between lines has been read since the last comment. -/
def rest (clean : Bool) : Space → Text → Rest
  | .blank, [] => if clean then .more [] else .stray
  | .blank, c :: t =>
    if c = '/' && t.head? = some '/' then rest true .lineComment t
    else if c = '/' && t.head? = some '*' && Text.occurs "*/".toList (t.drop 1) then
      rest true .blockComment (t.drop 1)
    else if c = '\n' && clean then .line t
    else if isSpace c then rest (clean && isLineSpace c) .blank t
    else if clean then .more (c :: t)
    else .stray
  | .lineComment, [] => .more []
  | .lineComment, c :: t =>
    if c = '\n' then .line t
    else if endsLineComment c then rest true .blank t
    else rest true .lineComment t
  | .blockComment, '*' :: '/' :: t => rest true .blank t
  | .blockComment, _ :: t => rest true .blockComment t
  | .blockComment, [] => .more []
termination_by _ t => t.length
decreasing_by all_goals simp; try omega

/-! ## On the next line -/

/-- What follows the white space and comments at the start of a line. -/
def nextLine : Space → Text → Text
  | .blank, [] => []
  | .blank, c :: t =>
    if isLineSpace c then nextLine .blank t
    else if c = '/' && t.head? = some '/' then nextLine .lineComment t
    else if c = '/' && t.head? = some '*' then nextLine .blockComment (t.drop 1)
    else c :: t
  | .lineComment, [] => []
  | .lineComment, c :: t =>
    if c = '\n' || [8232, 8233].contains c.toNat then nextLine .blank t
    else nextLine .lineComment t
  | .blockComment, '*' :: '/' :: t => nextLine .blank t
  | .blockComment, _ :: t => nextLine .blockComment t
  | .blockComment, [] => []
termination_by _ t => t.length
decreasing_by all_goals simp; try omega

/-- A text that begins with one of the operators that are words. -/
def startsWordOperator (t : Text) : Bool :=
  let operator (word : String) : Bool :=
    word.toList.isPrefixOf t
      && !((t.drop word.length).head?.any fun c => c.isAlpha || 128 ≤ c.toNat)
  operator "in" || operator "instanceof"

/-- A line that begins like this goes on with the one before it. -/
def goesOn (e : Ending) (t : Text) : Bool :=
  match t with
  | [] => false
  | '{' :: _ => e.body
  | '(' :: _ | '[' :: _ => e.operator
  | '+' :: after => after.head? != some '+'
  | '-' :: after => after.head? != some '-'
  | '!' :: after => after.head? = some '='
  | c :: _ => "\x60,.;*%><=?^|&/:".toList.contains c || startsWordOperator t

end LineEnd

/-- A semicolon is left out before this text. A brace on the same line closes something unless a
colon follows it, which makes it a part of a condition. -/
def Ending.leftOut (e : Ending) (t : Text) : Bool :=
  e.semicolon &&
    match LineEnd.rest true .blank t with
    | .line next => !LineEnd.goesOn e (LineEnd.nextLine .blank next)
    | .more [] => true
    | .more (c :: after) =>
      c = '}' && ((after.dropWhile LineEnd.isLineSpace).head? != some ':' || e.operator)
    | .stray => false

namespace LineEnd

open Lexer (Space)

/-- The length of the comments that stand on the same line, of so many characters read, with the
blanks between them. -/
def commentsLength (read best : Nat) : Space → Text → Nat
  | .blank, [] => best
  | .blank, '/' :: '/' :: t => commentsLength (read + 2) best .lineComment t
  | .blank, '/' :: '*' :: t => commentsLength (read + 2) best .blockComment t
  | .blank, c :: t => if c = '\n' then best else commentsLength (read + 1) best .blank t
  | .lineComment, [] => read
  | .lineComment, c :: t =>
    if c = '\n' then read
    else if endsLineComment c then commentsLength (read + 1) read .blank t
    else commentsLength (read + 1) best .lineComment t
  | .blockComment, '*' :: '/' :: t => commentsLength (read + 2) (read + 2) .blank t
  | .blockComment, _ :: t => commentsLength (read + 1) best .blockComment t
  | .blockComment, [] => read

end LineEnd

end NestClient.TypeScript
