import NestClient.TypeText.Bracket

/-! The missing value as a member of a union type: `T | undefined`. -/

namespace NestClient.TypeText

/-- The type of the missing value. -/
def missingValue : Text := "undefined".toList

/-- The type without its members `undefined`, and whether there was one to take away. A union of
nothing else stays as it is. -/
def stripMissing (t : Text) : Text × Bool :=
  let members := splitTopLevel '|' t
  let kept := members.filter (· ≠ missingValue)
  if kept.length = members.length || kept.isEmpty then (t, false)
  else (Text.join " | ".toList kept, true)

end NestClient.TypeText
