import NestClient.Text.Blank

/-! Brackets in the text of a type. A `>` right after `=` belongs to an arrow and closes nothing. -/

namespace NestClient.TypeText

/-! ## Angle brackets -/

/-- A `>` that closes an angle bracket, given the character before it. -/
def closesAngle (before : Option Char) (c : Char) : Bool := c = '>' && before != some '='

/-- How far into the text the angle bracket closes that is open `depth` deep. -/
def closingOffset (before : Option Char) (depth : Int) : Text → Option Nat
  | [] => none
  | c :: rest =>
    if c = '<' then (closingOffset (some c) (depth + 1) rest).map (· + 1)
    else if closesAngle before c then
      if depth = 1 then some 0 else (closingOffset (some c) (depth - 1) rest).map (· + 1)
    else (closingOffset (some c) depth rest).map (· + 1)

/-- The position of the `>` that closes the `<` at position `start`. -/
def matchingAngle (t : Text) (start : Nat) : Option Nat :=
  let before := if start = 0 then none else t[start - 1]?
  (closingOffset before 0 (t.drop start)).map (start + ·)

/-- What `wrapper<…>` wraps, where that is the whole text. -/
def unwrap? (wrapper t : Text) : Option Text :=
  let whole := Text.trim t
  match Text.dropLead? (wrapper ++ ['<']) whole with
  | none => none
  | some inside =>
    if matchingAngle whole wrapper.length = some (whole.length - 1) then
      some (Text.trim inside.dropLast)
    else none

/-! ## Splitting outside of brackets -/

/-- Opens a bracket of any kind. -/
def opens (c : Char) : Bool := c = '<' || c = '(' || c = '[' || c = '{'

/-- Closes a bracket of any kind, given the character before it. -/
def closes (before : Option Char) (c : Char) : Bool :=
  c = ')' || c = ']' || c = '}' || closesAngle before c

/-- The untrimmed pieces between separators that stand outside of all brackets. -/
def cut (isSep : Char → Bool) (before : Option Char) (depth : Int) : Text → List Text
  | [] => [[]]
  | c :: rest =>
    if opens c then Text.lengthenHead c (cut isSep (some c) (depth + 1) rest)
    else if closes before c then Text.lengthenHead c (cut isSep (some c) (depth - 1) rest)
    else if isSep c && depth = 0 then [] :: cut isSep (some c) depth rest
    else Text.lengthenHead c (cut isSep (some c) depth rest)

/-- The trimmed pieces between separators of a class that stand outside of all brackets. -/
def splitTopLevelBy (isSep : Char → Bool) (t : Text) : List Text :=
  (cut isSep none 0 t).map Text.trim

/-- The trimmed pieces between the occurrences of `sep` outside of all brackets. -/
def splitTopLevel (sep : Char) (t : Text) : List Text := splitTopLevelBy (· = sep) t

end NestClient.TypeText
