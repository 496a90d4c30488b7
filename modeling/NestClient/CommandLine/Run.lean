import NestClient.CommandLine.Command
import NestClient.CommandLine.Table
import NestClient.Generation
import NestClient.Text.JsonString

/-! Commands on a workspace: what they print, and the code they exit with. -/

namespace NestClient

/-- The end of a command. -/
structure Outcome where
  exitCode : Nat := 0
  output : Text := []
  /-- A failure that the command has no words of its own for. -/
  failure : Option Failure := none
  deriving DecidableEq, Repr

/-- The end of a command that makes no sense. -/
def Outcome.misuse : Outcome := { exitCode := 2 }

namespace Command

/-! ## Reports -/

def padEnd (length : Nat) (t : Text) : Text := t ++ List.replicate (length - t.length) ' '

def padStart (length : Nat) (t : Text) : Text := List.replicate (length - t.length) ' ' ++ t

def clientLine (c : ClientDescriptor) : Text :=
  "  ".toList ++ padEnd 40 c.className ++ ' ' :: padStart 3 (Text.ofNat c.endpointCount)
    ++ " methods".toList

def generationLines (g : Generation) : List Text :=
  let skipped :=
    if g.skippedFiles.isEmpty then []
    else
      ("Skipped (parse errors): ".toList ++ Text.ofNat g.skippedFiles.length)
        :: g.skippedFiles.map ("  ".toList ++ ·)
  let clients := Text.sortBy (fun a b => Text.le a.className b.className) g.clients
  ["API prefix: ".toList ++ g.apiPrefix,
    "Controller files scanned: ".toList ++ Text.ofNat g.filesScanned]
    ++ skipped ++ clients.map clientLine
    ++ [[],
      "Output: ".toList ++ g.outputDir,
      "Manifest: ".toList ++ g.manifestPath,
      "Generated ".toList ++ Text.ofNat g.clients.length ++ " client(s)".toList]

def tableLines (a : Analysis) : List Text :=
  let rows := a.plans.flatMap fun plan => plan.endpoints.map fun e =>
    [e.verb.name, '/' :: e.route, plan.group.name ++ '.' :: e.methodName, e.returnType.expression,
      plan.group.sourceFile]
  let header := ["VERB", "ROUTE", "CLIENT METHOD", "RETURNS", "FILE"].map String.toList
  ["API prefix: ".toList ++ a.apiPrefix, "Endpoints: ".toList ++ Text.ofNat rows.length]
    ++ Table.lines header rows

def jsonField (name : String) (value : Text) : Text :=
  "    ".toList ++ Text.jsonString name.toList ++ ": ".toList ++ Text.jsonString value

def jsonRow (plan : Plan) (e : Endpoint) : Text :=
  "  \x7b\n".toList
    ++ Text.join ",\n".toList [
      jsonField "controller" plan.group.name,
      jsonField "file" plan.group.sourceFile,
      jsonField "method" e.methodName,
      jsonField "verb" e.verb.name,
      jsonField "route" e.route,
      jsonField "returns" e.returnType.expression]
    ++ "\n  \x7d".toList

def jsonLines (a : Analysis) : List Text :=
  let rows := a.plans.flatMap fun plan => plan.endpoints.map (jsonRow plan)
  if rows.isEmpty then ["[]".toList]
  else ["[\n".toList ++ Text.join ",\n".toList rows ++ "\n]".toList]

/-! ## Running -/

def printedLines (lines : List Text) : Text := Client.unlines (lines.map Layout.printed)

/-- The end of an action that has printed some lines and prints more if it works. -/
def conclude {α : Type} (before : List Text) (after : α → List Text) :
    Except Failure α → Outcome
  | .ok a => { output := printedLines (before ++ after a) }
  | .error (.configMissing path) =>
    { exitCode := 1
      output := printedLines
        (before ++ ["error: ".toList ++ (Failure.configMissing path).message]) }
  | .error failure =>
    { exitCode := 1, output := printedLines before, failure := some failure }

/-- Whoever runs a command: the directory where that is, and the home directories that are known,
each with the name of its user. The home of the caller has no name. -/
structure Caller where
  current : Path
  homes : List (Text × Path) := []

/-- The path that an argument gives. A `~` at its start stands for a home directory. -/
def Caller.path? (caller : Caller) (written : Text) : Option Path :=
  let p := Path.ofText written
  match p.anchor, p.names with
  | .here, ('~' :: user) :: rest => (caller.homes.lookup user).map (·.append ⟨.here, rest⟩)
  | _, _ => some (caller.current.append p)

/-- The directory that an argument names, or how a command ends without it. -/
def workspaceOf (caller : Caller) (d : Disk) (written : Text) : Except Outcome Path :=
  let failing (f : Failure) : Outcome := { exitCode := 1, failure := some f }
  match caller.path? written with
  | none => .error (failing .homeUnknown)
  | some p =>
    match d.resolve p with
    | .error loop => .error (failing (.linkLoop loop))
    | .ok p => if d.isDirectory p then .ok p else .error .misuse

/-- Runs an action in the directory that an argument names. -/
def inWorkspace {α : Type} (d : Disk) (caller : Caller) (workspace : Text) (before : List Text)
    (after : α → List Text) (action : Path → Action α) : Outcome × Session :=
  match workspaceOf caller d workspace with
  | .error outcome => (outcome, ⟨d, []⟩)
  | .ok root =>
    let (result, session) := (action root).start d
    (conclude before after result, session)

def usageLines : List Text :=
  ["Usage:",
    "  [--verbose] generate [WORKSPACE]                       write the clients of a workspace",
    "  [--verbose] list [WORKSPACE] [--format table|json]     show its endpoints"].map String.toList

/-- Runs a command with the default configuration. -/
def run (c : Command) (caller : Caller) (d : Disk) : Outcome × Session :=
  match c with
  | generate workspace =>
    inWorkspace d caller workspace ["Generating Angular services...".toList] generationLines
      fun root => NestClient.generate root {}
  | list workspace .table => inWorkspace d caller workspace [] tableLines (analyze · {})
  | list workspace .json => inWorkspace d caller workspace [] jsonLines (analyze · {})
  | help => ({ output := Client.unlines usageLines }, ⟨d, []⟩)

def runArguments (args : List Text) (caller : Caller) (d : Disk) : Outcome × Session :=
  match ofArguments? args with
  | some c => c.run caller d
  | none => (.misuse, ⟨d, []⟩)

end Command

end NestClient
