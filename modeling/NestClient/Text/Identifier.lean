import NestClient.Text.Basic

/-! Names written with ASCII letters, digits, `_` and `$`, not beginning with a digit. -/

namespace NestClient

def isNameStart (c : Char) : Bool := c.isAlpha || c = '_' || c = '$'

def isNameChar (c : Char) : Bool := c.isAlphanum || c = '_' || c = '$'

namespace Text

/-- One whole name. -/
def isName : Text → Bool
  | [] => false
  | c :: rest => isNameStart c && rest.all isNameChar

/-- One whole name, which may end the line it stands on. -/
def isNameLine (t : Text) : Bool :=
  isName t || (match dropTail? ['\n'] t with
    | some name => isName name
    | none => false)

end Text

end NestClient
