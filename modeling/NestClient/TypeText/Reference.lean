import NestClient.Text.Blank
import NestClient.Text.Identifier

/-! References to a type of another module as they stand in the text of a type:
`import("module").Symbol`. -/

namespace NestClient.TypeText

/-- A type of another module, with the text that refers to it. -/
structure Reference where
  module : Text
  symbol : Text
  written : Text
  deriving DecidableEq, Repr

/-- A piece of a type's text. -/
inductive Piece where
  | char (c : Char)
  | reference (r : Reference)
  deriving DecidableEq, Repr

namespace Piece

def written : Piece → Text
  | char c => [c]
  | reference r => r.written

def reference? : Piece → Option Reference
  | char _ => none
  | reference r => some r

end Piece

/-- A single or a double quote. -/
def isQuote (c : Char) : Bool := c = '"' || c = '\x27'

/-- The module and the symbol of a reference at the start of the text, and what follows it. -/
def readReference? (t : Text) : Option (Text × Text × Text) := do
  let afterOpen ← Text.dropLead? "import(".toList t
  match afterOpen.dropWhile isBlank with
  | [] => none
  | quote :: quoted =>
    if !isQuote quote then none
    else
      let module := quoted.takeWhile fun c => !isQuote c
      if module.isEmpty then none
      else
        match quoted.dropWhile fun c => !isQuote c with
        | [] => none
        | _ :: closing =>
          let named ← Text.dropLead? ").".toList (closing.dropWhile isBlank)
          match named with
          | [] => none
          | c :: _ =>
            if isNameStart c then
              some (module, named.takeWhile isNameChar, named.dropWhile isNameChar)
            else none

/-- Cuts a text into references and single characters; the number bounds the pieces. -/
def piecesUpTo : Nat → Text → List Piece
  | 0, _ => []
  | _ + 1, [] => []
  | bound + 1, c :: rest =>
    match readReference? (c :: rest) with
    | some (module, symbol, after) =>
      let written := (c :: rest).take ((c :: rest).length - after.length)
      .reference { module, symbol, written } :: piecesUpTo bound after
    | none => .char c :: piecesUpTo bound rest

/-- The references in a text, from left to right and not overlapping, with the characters between
them. -/
def pieces (t : Text) : List Piece := piecesUpTo t.length t

def references (t : Text) : List Reference := (pieces t).filterMap Piece.reference?

end NestClient.TypeText
