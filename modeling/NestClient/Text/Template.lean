import NestClient.Text.Blank

/-! Texts with holes written `${…}`, and the constants that fill them. -/

namespace NestClient

/-! ## Constants -/

/-- Named texts; of two with one name the later counts. -/
abbrev Constants := List (Text × Text)

def Constants.get? (cs : Constants) (name : Text) : Option Text := cs.reverse.lookup name

/-- The name at the end of a dotted expression. -/
def lastName (expression : Text) : Text :=
  Text.trim (Text.afterLast '.' (Text.trim expression))

/-! ## Holes -/

/-- A piece of a text with holes. -/
inductive TemplatePart where
  | char (c : Char)
  | hole (inner : Text)
  deriving DecidableEq, Repr

/-- The text that the piece is written as. -/
def TemplatePart.written : TemplatePart → Text
  | char c => [c]
  | hole inner => '$' :: '{' :: inner ++ ['}']

def TemplatePart.hole? : TemplatePart → Option Text
  | char _ => none
  | hole inner => some inner

namespace Template

/-- Reads on inside a hole, whose content so far is given last character first, or outside of any.
A hole that never closes is plain text. -/
def partsFrom : Option Text → Text → List TemplatePart
  | none, [] => []
  | none, '$' :: '{' :: rest => partsFrom (some []) rest
  | none, c :: rest => .char c :: partsFrom none rest
  | some inner, [] => ('$' :: '{' :: inner.reverse).map .char
  | some inner, c :: rest =>
    if c = '}' then .hole inner.reverse :: partsFrom none rest
    else partsFrom (some (c :: inner)) rest

def parts (t : Text) : List TemplatePart := partsFrom none t

def holes (t : Text) : List Text := (parts t).filterMap TemplatePart.hole?

/-- Fills the holes that `value` knows; the others stay as written. -/
def fill (value : Text → Option Text) (t : Text) : Text :=
  (parts t).flatMap fun part =>
    match part with
    | .char c => [c]
    | .hole inner => (value inner).getD part.written

/-- Fills the holes that name a constant, alone or at the end of a dotted expression. -/
def fillConstants (cs : Constants) (t : Text) : Text :=
  fill (fun inner => cs.get? (lastName inner)) t

end Template

end NestClient
