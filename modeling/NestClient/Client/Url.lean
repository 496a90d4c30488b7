import NestClient.Client.Literal
import NestClient.Endpoint
import NestClient.Text.Word

/-! The URL of a request as a template literal: the base URL, then the route with path parameters in
place of their placeholders. -/

namespace NestClient.Client

/-- Enters the key of a parameter with the parameter's name. A repeated key keeps its place and takes
the new name. -/
def enterKey (table : List (Text × Text)) (p : Parameter) : List (Text × Text) :=
  match p.key with
  | none | some [] => table
  | some key =>
    if table.any (·.1 = key) then
      table.map fun entry => if entry.1 = key then (key, p.name) else entry
    else table ++ [(key, p.name)]

/-- The keys of the path parameters with the parameters' names, the last one for each key. -/
def pathNames (e : Endpoint) : List (Text × Text) := (e.withRole .path).foldl enterKey []

/-- Longer keys come first, so that a key never hides one that extends it. -/
def longestFirst (table : List (Text × Text)) : List (Text × Text) :=
  Text.sortBy (fun a b => b.1.length ≤ a.1.length) table

/-- A placeholder may end before this character. -/
def endsPlaceholder : Option Char → Bool
  | none => true
  | some c => !(isWord c || c = '$' || c = '-')

/-- The name for the placeholder at the start of the text, and what follows it. -/
def placeholder? (table : List (Text × Text)) : Text → Option (Text × Text × Text)
  | ':' :: rest =>
    table.findSome? fun (key, name) =>
      match Text.dropLead? key rest with
      | some after => if endsPlaceholder after.head? then some (key, name, after) else none
      | none => none
  | _ => none

/-- A hole of a template literal. -/
def interpolation (name : Text) : Text := "$\x7b".toList ++ name ++ "\x7d".toList

/-- Puts names for placeholders. A placeholder stands at the start of the route or after a slash;
the number bounds the steps. -/
def interpolateUpTo (table : List (Text × Text)) : Nat → Bool → Text → Text
  | 0, _, t => t
  | _ + 1, _, [] => []
  | bound + 1, atStart, c :: rest =>
    match if atStart then placeholder? table (c :: rest) else none with
    | some (key, name, after) =>
      interpolation name ++ interpolateUpTo table bound (key.getLast? = some '/') after
    | none => c :: interpolateUpTo table bound (c = '/') rest

def interpolate (table : List (Text × Text)) (route : Text) : Text :=
  interpolateUpTo table route.length true route

/-- The template literal of the URL. -/
def urlExpression (e : Endpoint) : Text :=
  let path := interpolate (longestFirst (pathNames e)) (escapeTemplate e.route)
  "\x60$\x7bthis.BASE_URL\x7d".toList ++ (if path.isEmpty then [] else '/' :: path) ++ ['\x60']

end NestClient.Client
