import NestClient.TypeScript.Token

/-! From source text to tokens. The lexer gives the token at the start of a text and never looks
behind it; regular expressions and the pieces of template literals, which begin like other tokens,
are read on demand. -/

namespace NestClient.TypeScript.Lexer

/-! ## Blanks and comments -/

/-- Where the reading of blanks stands. -/
inductive Space where
  | blank
  | lineComment
  | blockComment
  deriving DecidableEq

/-- The blanks and comments at the start of a text, and what follows them. A block comment that never
closes is none. -/
def trivia : Space → Text → Text × Text
  | _, [] => ([], [])
  | .blank, '/' :: '/' :: rest => push '/' (push '/' (trivia .lineComment rest))
  | .blank, '/' :: '*' :: rest =>
    if Text.occurs "*/".toList rest then push '/' (push '*' (trivia .blockComment rest))
    else ([], '/' :: '*' :: rest)
  | .blank, c :: rest => if isSpace c then push c (trivia .blank rest) else ([], c :: rest)
  | .lineComment, c :: rest =>
    if endsLineComment c then push c (trivia .blank rest) else push c (trivia .lineComment rest)
  | .blockComment, '*' :: '/' :: rest => push '*' (push '/' (trivia .blank rest))
  | .blockComment, c :: rest => push c (trivia .blockComment rest)
where
  /-- One more character of the blanks. -/
  push (c : Char) (t : Text × Text) : Text × Text := (c :: t.1, t.2)

/-- How many comments stand among blanks. -/
def commentCount : Space → Text → Nat
  | _, [] => 0
  | .blank, '/' :: '/' :: rest => commentCount .lineComment rest + 1
  | .blank, '/' :: '*' :: rest => commentCount .blockComment rest + 1
  | .blank, _ :: rest => commentCount .blank rest
  | .lineComment, c :: rest => commentCount (if endsLineComment c then .blank else .lineComment) rest
  | .blockComment, '*' :: '/' :: rest => commentCount .blank rest
  | .blockComment, _ :: rest => commentCount .blockComment rest

/-- The start of a file up to the end of the line that calls an interpreter. Only blanks and comments
can stand before it. -/
def interpreterLine (source : Text) : Text :=
  let (before, rest) := trivia .blank source
  if "#!".toList.isPrefixOf rest then before ++ rest.takeWhile (· ≠ '\n') else []

/-! ## Escapes and words -/

def isHexDigit (c : Char) : Bool := c.isDigit || ('a' ≤ c && c ≤ 'f') || ('A' ≤ c && c ≤ 'F')

/-- How many hexadecimal digits the text begins with, up to a bound. -/
def hexDigits (bound : Nat) (t : Text) : Nat := ((t.take bound).takeWhile isHexDigit).length

/-- The length of the code of a character after `\u`: four digits or any number of them in braces. -/
def codeLength (t : Text) : Option Nat :=
  match t with
  | '{' :: rest =>
    let n := hexDigits rest.length rest
    if 0 < n && rest[n]? = some '}' then some (n + 2) else none
  | t => if hexDigits 4 t = 4 then some 4 else none

/-- The length of an escape after its backslash. -/
def escapeLength : Text → Option Nat
  | [] => none
  | 'x' :: rest => if hexDigits 2 rest = 2 then some 3 else none
  | 'u' :: rest => (codeLength rest).map (· + 1)
  | c :: d :: _ =>
    if (c = '\r' || c = '?') && (d = '\n' || [8232, 8233].contains d.toNat) then some 2 else some 1
  | [_] => some 1

/-- The length of the name at the start of a text, after so many characters of it. Characters can be
written by their code; a digit begins no name. -/
def wordLength (read : Nat) : Text → Nat
  | [] => read
  | c :: rest =>
    if isWordChar c && (0 < read || !c.isDigit) then wordLength (read + 1) rest
    else if c = '\\' then
      match rest with
      | 'u' :: code =>
        match codeLength code with
        | some n => wordLength (read + 2 + n) (code.drop n)
        | none => read
      | _ => read
    else read
termination_by t => t.length
decreasing_by all_goals simp; try omega

/-! ## Literals -/

/-- The length of a string literal's rest, its closing quote included, after so many characters of
it. A line can end in a string if nothing but blanks and comments stands between that and the closing
quote. -/
def stringEnd (quote : Char) (read : Nat) : Text → Option Nat
  | [] => none
  | c :: rest =>
    if c = quote then some (read + 1)
    else if c = '\\' then
      match escapeLength rest with
      | some n => stringEnd quote (read + 1 + n) (rest.drop n)
      | none => none
    else if c = '\n' || c = '\r' then
      let (skipped, after) := trivia .blank (c :: rest)
      if after.head? = some quote then some (read + skipped.length + 1) else none
    else stringEnd quote (read + 1) rest
termination_by t => t.length
decreasing_by all_goals simp; try omega

/-- The length of a piece of a template literal, after so many characters of it: up to and with the
closing backtick or the start of a hole. -/
def pieceEnd (escapes : Bool) (read : Nat) : Text → Option Nat
  | [] => none
  | c :: rest =>
    if c = '\x60' then some (read + 1)
    else if c = '$' && rest.head? = some '{' then some (read + 2)
    else if c = '\\' then
      match escapeLength rest with
      | some n => if escapes then pieceEnd escapes (read + 1 + n) (rest.drop n) else none
      | none => none
    else pieceEnd escapes (read + 1) rest
termination_by t => t.length
decreasing_by all_goals simp; try omega

/-- The length of the pattern of a regular expression up to its closing slash, given whether a set of
characters is open. -/
def patternEnd (inSet : Bool) : Text → Option Nat
  | [] => none
  | '\\' :: c :: rest => if c = '\n' then none else (patternEnd inSet rest).map (· + 2)
  | c :: rest =>
    if c = '\n' then none
    else if c = '/' && !inSet then some 0
    else (patternEnd (if inSet then c != ']' else c = '[') rest).map (· + 1)

/-- The length of a regular expression, slashes and flags included. -/
def regexLength (t : Text) : Option Nat :=
  match patternEnd false (t.drop 1) with
  | none | some 0 => none
  | some n => some (n + 2 + ((t.drop (n + 2)).takeWhile fun c => 'a' ≤ c && c ≤ 'z').length)

/-- The length of a run of digits, with a `_` between two of them where it is wanted. -/
def digitsLength (isDigit : Char → Bool) : Text → Nat
  | [] => 0
  | '_' :: _ => 0
  | c :: '_' :: d :: rest =>
    if !isDigit c then 0
    else if isDigit d then digitsLength isDigit (d :: rest) + 2
    else 1
  | c :: rest => if isDigit c then digitsLength isDigit rest + 1 else 0

def exponentLength : Text → Nat
  | e :: rest =>
    if e = 'e' || e = 'E' then
      let sign := if rest.head?.any fun c => c = '+' || c = '-' then 1 else 0
      match digitsLength Char.isDigit (rest.drop sign) with
      | 0 => 0
      | n => 1 + sign + n
    else 0
  | [] => 0

/-- The digits of a base that a letter after the leading zero names. -/
def baseDigits? (letter : Char) : Option (Char → Bool) :=
  if letter = 'x' || letter = 'X' then some isHexDigit
  else if letter = 'o' || letter = 'O' then some fun c => '0' ≤ c && c ≤ '7'
  else if letter = 'b' || letter = 'B' then some fun c => c = '0' || c = '1'
  else none

/-- A mark for integers of any size takes one more character. -/
def bigMark (t : Text) : Nat := if t.head? = some 'n' then 1 else 0

/-- The length of a decimal number that begins with a digit or a point. -/
def decimalLength (t : Text) : Nat :=
  let whole := digitsLength Char.isDigit t
  let after := t.drop whole
  -- more than one leading zero stands before no fraction and no exponent
  if "00".toList.isPrefixOf t then whole + bigMark after
  else
    match after with
    | '.' :: fraction =>
      let digits := digitsLength Char.isDigit fraction
      if whole = 0 && digits = 0 then 0
      else whole + 1 + digits + exponentLength (fraction.drop digits)
    | _ => max (whole + bigMark after) (whole + exponentLength after)

def numberLength (t : Text) : Nat :=
  match t with
  | '0' :: letter :: rest =>
    match baseDigits? letter with
    | none => decimalLength t
    | some isDigit =>
      match digitsLength isDigit rest with
      | 0 => decimalLength t
      | n => n + 2 + bigMark (rest.drop n)
  | _ => decimalLength t

/-! ## Marks -/

/-- The marks of more than one character, longer ones first. -/
def longMarks : List Text := [
  ">>>=", "...", "===", "!==", "**=", "<<=", ">>=", ">>>", "&&=", "||=", "??=", "=>", "==", "!=",
  "<=", ">=", "<<", ">>", "**", "*=", "++", "+=", "--", "-=", "&&", "&=", "||", "|=", "??", "^=",
  "%=", "/=", "?.", "\x7b|", "|\x7d"].map String.toList

def shortMarks : Text := "\x7b\x7d()[];,<>+-*/%&|^!~?:=.@\x60".toList

/-- The length of the mark at the start of the text. `?.` is none before a digit. -/
def markLength (t : Text) : Nat :=
  match longMarks.find? (·.isPrefixOf t) with
  | some mark =>
    if mark = "?.".toList && (t[2]?.any Char.isDigit) then 1 else mark.length
  | none => if t.head?.any shortMarks.contains then 1 else 0

/-! ## Tokens -/

/-- The kind and the length of the token at the start of a text. -/
def tokenAt (t : Text) : TokenKind × Nat :=
  match t with
  | [] => (.endOfFile, 0)
  | c :: rest =>
    let named := wordLength 0 t
    if 0 < named then (.word, named)
    else if c.isDigit || (c = '.' && rest.head?.any Char.isDigit) then (.number, numberLength t)
    else if c = '"' || c = '\x27' then
      match stringEnd c 1 rest with
      | some n => (.string, n)
      | none => (.bad, 1)
    else if c = '#' && 0 < wordLength 0 rest then (.privateName, 1 + wordLength 0 rest)
    else
      match markLength t with
      | 0 => (.bad, 1)
      | n => (.mark, n)

/-- The first token of a text, given what precedes it, and the text behind it. -/
def token (line place : Nat) (lead t : Text) : Token × Text :=
  let (skipped, rest) := trivia .blank t
  let before := lead ++ skipped
  let (kind, size) := tokenAt rest
  (⟨kind, before, rest.take size, line + lineCount before, place + before.length⟩, rest.drop size)

end NestClient.TypeScript.Lexer
