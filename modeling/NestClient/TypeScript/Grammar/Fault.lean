import NestClient.TypeScript.Grammar.Cursor

/-! Where a source is at fault. Reading gets stuck at a token, but the token may be right where it
stands, and what precedes it incomplete. -/

namespace NestClient.TypeScript

namespace Token

/-- Opens a brace, which may be that of a hole in a template. -/
def opensBrace (t : Token) : Bool :=
  startsMark '{' t || (t.kind = .templatePiece && t.text.getLast? = some '{')

def closesBrace (t : Token) : Bool := isOneOfMarks ["\x7d", "|\x7d"] t

/-- Can begin a statement that is no expression. -/
def beginsUnit (t : Token) : Bool := t.kind = .word || isMark "@" t

end Token

/-- The first token of the unit, a statement or a member, that the last of these tokens belongs to,
given how many braces are closed behind them and the token behind them. The tokens are given last
first. -/
def unitStart (closed : Nat) (first : Token) : List Token → Token
  | [] => first
  | t :: before =>
    if closed = 0 && (t.opensBrace || isMark ";" t || (t.closesBrace && first.beginsUnit)) then first
    else
      let closed := if t.opensBrace then closed - 1 else closed
      unitStart (if t.closesBrace then closed + 1 else closed) t before

namespace Cursor

/-- The tokens read from a place on, last first. -/
def readSince (c : Cursor) (place : Nat) : List Token :=
  (c.read.takeWhile fun leaf => place ≤ leaf.token.place).map (·.token)

/-- The line on which ends what has been read, comments included. -/
def lineBefore (c : Cursor) : Nat :=
  c.next.line - lineCount (c.next.trivia.reverse.takeWhile isSpace)

/-- The cursor in a source that lacks a token still to read. -/
def leaveOut (c : Cursor) (t : Token) : Cursor :=
  let source := c.next.text ++ c.rest
  let size := t.place - c.next.place
  let trivia := c.next.trivia
  let (next, rest) :=
    Lexer.token (c.next.line - lineCount trivia) (c.next.place - trivia.length) trivia
      (source.take size ++ source.drop (size + t.text.length))
  { c with next, rest }

/-- A reader that got stuck goes on if it does not find the token at which it did. -/
def goesOnWithout {α : Type} (read : Parse α) (c stuck : Cursor) : Bool :=
  match read (c.leaveOut stuck.next) with
  | .ok _ => true
  | .error further => further.read.head?.any fun leaf => stuck.next.place ≤ leaf.token.place

/-- The line at which a statement is at fault, given how to read it and where that got stuck.

A question mark that closes a parameter is taken for that of a condition, so that all of the unit
around it is wrong. Outside of braces, where the next word or decorator could begin another
statement, that word is wrong if reading goes on without it, and else the whole statement.
Everything else is wrong where it ends too early. -/
def faultLine {α : Type} (read : Parse α) (c stuck : Cursor) : Nat :=
  match stuck.readSince c.next.place with
  | [] => if (Rank.ofToken? stuck.next).isSome then stuck.lineBefore else stuck.next.line
  | last :: before =>
    if isMark "?" last then (unitStart 0 last before).line
    else if before.countP Token.opensBrace = (last :: before).countP Token.closesBrace
        && !last.opensBrace && stuck.next.beginsUnit then
      if c.goesOnWithout read stuck then stuck.next.line else c.next.line
    else stuck.lineBefore

end Cursor

end NestClient.TypeScript
