import NestClient.Text.Basic
import NestClient.Text.CaseTable

/-! Upper and lower case of whole texts. Lower case looks at its neighbours in one place: a capital
sigma that ends a word becomes the final form. -/

namespace NestClient

/-- Has a case, and is no character that case ignores. -/
def isCased (c : Char) : Bool := casedRanges.contains c

/-- Is passed over when a word's end is looked for. -/
def isCaseIgnorable (c : Char) : Bool := caseIgnorableRanges.contains c

/-- The lower case of one character outside of any word. -/
def lowerChar (c : Char) : Text :=
  if c.toNat < 128 then [c.toLower]
  else if c.toNat = 304 then ['i', Char.ofNat 775]
  else [Char.ofNat (CaseRun.apply lowerRuns c.toNat)]

def upperChar (c : Char) : Text :=
  if c.toNat < 128 then [c.toUpper]
  else
    match upperExpansions.lookup c.toNat with
    | some codes => codes.map Char.ofNat
    | none => [Char.ofNat (CaseRun.apply upperRuns c.toNat)]

/-- The first character that case does not ignore has a case. -/
def meetsCased (t : Text) : Bool :=
  match t.dropWhile isCaseIgnorable with
  | [] => false
  | c :: _ => isCased c

namespace Text

/-- Lower case, where `before` is what precedes the text, last character first. -/
def lowerAfter (before : Text) : Text → Text
  | [] => []
  | c :: rest =>
    let lowered :=
      if c.toNat = 931 then
        if meetsCased before && !meetsCased rest then [Char.ofNat 962] else [Char.ofNat 963]
      else lowerChar c
    lowered ++ lowerAfter (c :: before) rest

def lower (t : Text) : Text := lowerAfter [] t

def upper (t : Text) : Text := t.flatMap upperChar

end Text

end NestClient
