import NestClient.Text.Blank
import NestClient.Text.Case

/-! Commands as arguments give them. -/

namespace NestClient

inductive ListFormat where
  | table
  | json
  deriving DecidableEq, Repr

/-- A format by its name, in letters of any case. -/
def ListFormat.ofText? (t : Text) : Option ListFormat :=
  let name := Text.trim (Text.lower t)
  if name = "table".toList then some .table
  else if name = "json".toList then some .json
  else none

inductive Command where
  /-- Writes the clients of a workspace. -/
  | generate (workspace : Text)
  /-- Shows the endpoints of a workspace. -/
  | list (workspace : Text) (format : ListFormat)
  /-- Explains the commands. -/
  | help
  deriving DecidableEq, Repr

namespace Command

/-- The arguments of a command: its positional ones and the values of `--format`. -/
structure Arguments where
  positional : List Text := []
  formats : List Text := []
  help : Bool := false

/-- An argument that is an option: it begins with a hyphen and is no lone one. -/
def isOption (arg : Text) : Bool := arg.head? = some '-' && 1 < arg.length

/-- Sorts the arguments after a command's name; after `--` all are positional. -/
def Arguments.read? (takesFormat : Bool) : List Text → Option Arguments
  | [] => some {}
  | arg :: rest =>
    if arg = "--".toList then some { positional := rest }
    else if arg = "--help".toList then (Arguments.read? takesFormat rest).map ({ · with help := true })
    else if arg = "--format".toList && takesFormat then
      match rest with
      | [] => none
      | value :: rest =>
        (Arguments.read? takesFormat rest).map fun a => { a with formats := value :: a.formats }
    else if "--format=".toList.isPrefixOf arg && takesFormat then
      (Arguments.read? takesFormat rest).map fun a =>
        { a with formats := arg.drop "--format=".length :: a.formats }
    else if isOption arg then none
    else
      (Arguments.read? takesFormat rest).map fun a => { a with positional := arg :: a.positional }

/-- The workspace among positional arguments: the only one, or the current directory. -/
def workspace? : List Text → Option Text
  | [] => some ['.']
  | [path] => some path
  | _ :: _ :: _ => none

/-- An option for all commands that asks for more reports. -/
def isVerbose (arg : Text) : Bool :=
  arg = "--verbose".toList
    || (arg.head? = some '-' && 1 < arg.length && (arg.drop 1).all (· = 'v'))

/-- The command of a name with the arguments after it. -/
def ofName? (name : Text) (rest : List Text) : Option Command :=
  if name = "generate".toList then do
    let a ← Arguments.read? false rest
    if a.help then return .help
    return .generate (← workspace? a.positional)
  else if name = "list".toList then do
    let a ← Arguments.read? true rest
    if a.help then return .help
    let format ← ListFormat.ofText? (a.formats.getLastD "table".toList)
    return .list (← workspace? a.positional) format
  else none

/-- The command that arguments give, if they give one. No argument at all asks for help; `--` ends
the options before the name of the command. -/
def ofArguments? (args : List Text) : Option Command :=
  match args.dropWhile isVerbose with
  | [] => if args.isEmpty then some .help else none
  | first :: rest =>
    if first = "--help".toList then some .help
    else if first = "--".toList then
      match rest with
      | [] => none
      | name :: rest => ofName? name rest
    else ofName? first rest

def wantsDetail (args : List Text) : Bool := args.head?.any isVerbose

/-- The workspace of a command, as it was given. -/
def workspaceText? : Command → Option Text
  | generate workspace | list workspace _ => some workspace
  | help => none

def onWorkspace (workspace : Text) : Command → Command
  | generate _ => generate workspace
  | list _ format => list workspace format
  | help => help

end Command

end NestClient
