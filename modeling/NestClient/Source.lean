import NestClient.Path.Basic
import NestClient.Text.Utf8
import NestClient.TypeScript.Grammar.File
import NestClient.TypeScript.Reader

/-! From the text or the bytes of a file to the model of what it declares. -/

namespace NestClient

/-- Why a file has no model. -/
inductive SourceProblem where
  /-- The source breaks the grammar near a line. -/
  | malformed (line : Nat)
  /-- The bytes are no text. -/
  | undecodable (fault : Utf8Fault)
  deriving DecidableEq, Repr

def SourceProblem.message (path : Text) (p : SourceProblem) : Text :=
  let reason :=
    match p with
    | malformed line => "syntax error near line ".toList ++ Text.ofNat line
    | undecodable fault => fault.message
  "Could not parse ".toList ++ path ++ ": ".toList ++ reason

namespace SourceFile

/-- The model of a source, for a file of this name. -/
def ofText (name source : Text) : Except SourceProblem SourceFile :=
  match TypeScript.parse source with
  | .ok statements => .ok (TypeScript.readFile name statements)
  | .error line => .error (.malformed line)

/-- The model of a file's contents, whose line ends may be of any kind. -/
def ofBytes (name : Text) (bytes : List UInt8) : Except SourceProblem SourceFile :=
  match Utf8.decode bytes with
  | .ok source => ofText name (Text.normalizeNewlines source)
  | .error fault => .error (.undecodable fault)

end SourceFile

end NestClient
