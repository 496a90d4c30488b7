import NestClient.Text.Quoted

/-! Strings as JSON writes them in ASCII: what is not printable ASCII is given by its UTF-16 units. -/

namespace NestClient.Text

/-- An escape of one UTF-16 unit. -/
def unitEscape (n : Nat) : Text := '\\' :: 'u' :: hex 4 n

def jsonChar (c : Char) : Text :=
  if c = '"' || c = '\\' then ['\\', c]
  else if c = '\n' then ['\\', 'n']
  else if c = '\r' then ['\\', 'r']
  else if c = '\t' then ['\\', 't']
  else if c.toNat = 8 then ['\\', 'b']
  else if c.toNat = 12 then ['\\', 'f']
  else if 32 ≤ c.toNat && c.toNat < 127 then [c]
  else if c.toNat < 65536 then unitEscape c.toNat
  else
    let n := c.toNat - 65536
    unitEscape (55296 + n / 1024) ++ unitEscape (56320 + n % 1024)

/-- A string with its quotes. -/
def jsonString (t : Text) : Text := '"' :: t.flatMap jsonChar ++ ['"']

end NestClient.Text
