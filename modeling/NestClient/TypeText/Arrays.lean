import NestClient.Text.Word
import NestClient.TypeText.Bracket

/-! The generic spelling of an array type, `Array<T>`, becomes the bracketed one, `T[]`. -/

namespace NestClient.TypeText

/-- The generic array type up to and with its opening bracket. -/
def arrayOpen : Text := "Array<".toList

/-- A word can begin after this character. -/
def wordMayStart : Option Char → Bool
  | none => true
  | some c => !isWord c

/-- The position of the first `Array<` that begins a word. -/
def arrayStart? (before : Option Char) : Text → Option Nat
  | [] => none
  | c :: rest =>
    if wordMayStart before && arrayOpen.isPrefixOf (c :: rest) then some 0
    else (arrayStart? (some c) rest).map (· + 1)

/-- A union or an intersection, which binds less tightly than the array suffix. -/
def needsParens (t : Text) : Bool :=
  1 < (splitTopLevel '|' t).length || 1 < (splitTopLevel '&' t).length

def bracketed (element : Text) : Text :=
  if needsParens element then '(' :: element ++ ")[]".toList else element ++ "[]".toList

theorem arrayStart?_lt {before : Option Char} {t : Text} {k : Nat}
    (h : arrayStart? before t = some k) : k < t.length := by
  induction t generalizing before k with
  | nil => simp [arrayStart?] at h
  | cons c rest ih =>
    rw [arrayStart?] at h
    split at h
    · cases h
      simp
    · obtain ⟨j, hj, rfl⟩ := Option.map_eq_some_iff.1 h
      simpa using ih hj

/-- Every `Array<T>` becomes `T[]`, at any depth. From an `Array<` on that is never closed the text
stays as it is. -/
def bracketArrays (t : Text) : Text :=
  match _hs : arrayStart? none t with
  | none => t
  | some start =>
    let body := t.drop (start + arrayOpen.length)
    match _hk : closingOffset (some '<') 1 body with
    | none => t
    | some size =>
      t.take start ++ bracketed (Text.trim (bracketArrays (body.take size)))
        ++ bracketArrays (body.drop (size + 1))
termination_by t.length
decreasing_by
  all_goals
    have h := arrayStart?_lt _hs
    have hl : arrayOpen.length = 6 := by decide
    simp only [body, List.length_take, List.length_drop, hl] at *
    omega

end NestClient.TypeText
