import NestClient.Text.Basic

/-! Literals of the generated code. -/

namespace NestClient.Client

/-- One character of a single-quoted literal. -/
def escapeQuoted (c : Char) : Text := if c = '\\' || c = '\x27' then ['\\', c] else [c]

/-- A single-quoted string literal. -/
def stringLiteral (t : Text) : Text := '\x27' :: t.flatMap escapeQuoted ++ ['\x27']

/-- Text inside a template literal: backslashes, backticks and the start of a hole are escaped. -/
def escapeTemplate : Text → Text
  | [] => []
  | c :: rest =>
    if c = '\\' || c = '\x60' || (c = '$' && rest.head? = some '{') then
      '\\' :: c :: escapeTemplate rest
    else c :: escapeTemplate rest

end NestClient.Client
