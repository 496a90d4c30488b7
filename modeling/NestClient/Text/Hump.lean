import NestClient.Text.Case

/-! Names written with humps, such as `orgCode`, taken apart where a hump begins. -/

namespace NestClient.Text

/-- A hump begins between these two characters. -/
def humpBetween (a b : Char) : Bool := (a.isLower || a.isDigit) && b.isUpper

/-- The text with a mark before every hump. -/
def markHumps (mark : Char) : Text → Text
  | [] => []
  | a :: rest =>
    if rest.head?.any (humpBetween a) then a :: mark :: markHumps mark rest
    else a :: markHumps mark rest

/-- The spelling of a constant: `orgCode` becomes `ORG_CODE`. -/
def constantCase (t : Text) : Text := upper (markHumps '_' t)

end NestClient.Text
