import NestClient.Text.Blank

/-! The tokens of TypeScript. Each carries the blanks and comments before it, so that the tokens read
and the text behind them still hold the whole source. -/

namespace NestClient.TypeScript

inductive TokenKind where
  /-- A name or a keyword. -/
  | word
  /-- A name with `#` in front. -/
  | privateName
  | number
  | string
  /-- A piece of a template literal, with the backtick or the start of a hole that ends it. -/
  | templatePiece
  | regex
  | mark
  /-- Comments at the end of a line, where they belong to what stands before them. -/
  | comment
  /-- A character that begins no token. -/
  | bad
  | endOfFile
  deriving DecidableEq, Repr

structure Token where
  kind : TokenKind
  /-- Blanks and comments before the token. -/
  trivia : Text
  text : Text
  /-- The line on which the token begins, counted from 1. -/
  line : Nat
  /-- How many characters of the source precede it. -/
  place : Nat
  deriving DecidableEq, Repr

/-- How many lines end in a text. -/
def lineCount (t : Text) : Nat := t.count '\n'

/-! ## Characters -/

/-- Blank characters that separate no tokens: the information separators and the next-line
control. -/
def nonSeparators : CodeRanges := [(28, 31), (133, 133)]

/-- White space between tokens, the byte order mark and zero-width separators included. -/
def isSpace (c : Char) : Bool :=
  (isBlank c && !nonSeparators.contains c) || [65279, 8288, 8203].contains c.toNat

/-- Ends a comment that runs to the end of its line. -/
def endsLineComment (c : Char) : Bool := c = '\n' || c = '\r' || [8232, 8233].contains c.toNat

/-- Characters of which no name is made. -/
def nameBreakers : Text := ":;\x60\"'@#.,|^&<=>+-*/\\%?!~()[]\x7b\x7d".toList

/-- Can stand inside a name: anything but controls, white space and punctuation. -/
def isWordChar (c : Char) : Bool := 31 < c.toNat && !isSpace c && !nameBreakers.contains c

def isWordStart (c : Char) : Bool := isWordChar c && !c.isDigit

/-! ## Tests on tokens -/

def isMark (mark : String) (t : Token) : Bool := t.kind = .mark && t.text = mark.toList

/-- A mark that begins with this character. -/
def startsMark (c : Char) (t : Token) : Bool := t.kind = .mark && t.text.head? = some c

def isKeyword (word : String) (t : Token) : Bool := t.kind = .word && t.text = word.toList

def isOneOfMarks (marks : List String) (t : Token) : Bool :=
  t.kind = .mark && marks.any fun m => t.text = m.toList

def isOneOfWords (words : List String) (t : Token) : Bool :=
  t.kind = .word && words.any fun w => t.text = w.toList

/-- The token stands right behind the one before it. -/
def isGlued (t : Token) : Bool := t.trivia.isEmpty

end NestClient.TypeScript
