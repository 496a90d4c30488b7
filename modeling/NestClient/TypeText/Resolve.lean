import NestClient.Endpoint
import NestClient.TypeText.Arrays
import NestClient.TypeText.Reference

/-! From the type that a server method declares to the type that the client shows. The wrapper of a
deferred result goes away, arrays get their bracketed form, and references to shared types become
bare symbols to import. A reference to any other module leaves nothing but `any`. -/

namespace NestClient.TypeText

/-- The wrapper of a result that comes later. -/
def deferred : Text := "Promise".toList

/-- Wrappers that are kept as written while the wrapped type is looked at. -/
def transparent : List Text := ["Omit".toList, "Partial".toList]

/-- Takes off one deferred wrapper after the other; the number bounds the layers. -/
def undeferUpTo : Nat → Text → Text
  | 0, t => t
  | bound + 1, t =>
    match unwrap? deferred t with
    | some inner => undeferUpTo bound inner
    | none => t

/-- The text without its deferred wrappers. -/
def undefer (t : Text) : Text := undeferUpTo t.length t

/-- Takes off array suffixes; the number bounds them. -/
def dropSuffixesUpTo : Nat → Text → Text
  | 0, t => t
  | bound + 1, t =>
    match Text.dropTail? "[]".toList t with
    | some element => dropSuffixesUpTo bound (Text.trim element)
    | none => t

/-- The type without one pair of parentheses around all of it. -/
def dropParens (t : Text) : Text :=
  match t with
  | '(' :: rest =>
    match Text.dropTail? [')'] rest with
    | some inner => Text.trim inner
    | none => t
  | _ => t

/-- What tells a type of the shared module from others. -/
structure Resolver where
  /-- The modules that hold shared types. -/
  isShared : Text → Bool
  /-- The end of every transfer type's name. -/
  dtoSuffix : Text := "Dto".toList

namespace Resolver

/-- The transfer type whose name the text is, array suffixes and one pair of parentheses apart. -/
def dtoSymbol (r : Resolver) (t : Text) : Option Text :=
  let bare := dropParens (dropSuffixesUpTo t.length (Text.trim t))
  if Text.isName bare && r.dtoSuffix.isSuffixOf bare && bare ≠ r.dtoSuffix then some bare
  else none

/-- The piece with a shared reference replaced by its symbol. -/
def showPiece (r : Resolver) : Piece → Text
  | .char c => [c]
  | .reference ref => if r.isShared ref.module then ref.symbol else ref.written

/-- The type with the import of a symbol that is available. -/
def withSymbol (expression : Text) (symbol : Option Text) (available : List Text) :
    ResolvedType :=
  match symbol with
  | some name => ⟨expression, if available.contains name then [name] else []⟩
  | none => ⟨expression, []⟩

/-- The wrapped type of a transparent wrapper: its first argument. -/
def transparentTarget? (t : Text) : Option Text :=
  (transparent.findSome? fun wrapper => unwrap? wrapper t).map fun inner =>
    (splitTopLevel ',' inner).headD []

/-- Resolves a type that refers to no module. -/
def resolveLocal (r : Resolver) (t : Text) (available : List Text) : ResolvedType :=
  match transparentTarget? t with
  | some target => withSymbol t (r.dtoSymbol target) available
  | none =>
    match r.dtoSymbol t with
    | some symbol => withSymbol t (some symbol) available
    | none =>
      if t = "unknown".toList || t = "any".toList then .any
      else ⟨t, []⟩

/-- Resolves a type without deferred wrapper and with bracketed arrays. -/
def resolveValue (r : Resolver) (t : Text) (available : List Text) : ResolvedType :=
  let refs := references t
  let shared := refs.filter fun ref => r.isShared ref.module
  if !shared.isEmpty then
    let expression := (pieces t).flatMap r.showPiece
    if !(references expression).isEmpty then .any
    else ⟨expression, (Text.distinct (shared.map (·.symbol))).filter available.contains⟩
  else if !refs.isEmpty || Text.occurs "import(".toList t then .any
  else r.resolveLocal t available

/-- The client type of a declared type; imports are taken from the available symbols only. -/
def resolve (r : Resolver) (t : Text) (available : List Text) : ResolvedType :=
  let text := Text.trim t
  if text.isEmpty then .any
  else r.resolveValue (bracketArrays (undefer text)) available

end Resolver

end NestClient.TypeText
