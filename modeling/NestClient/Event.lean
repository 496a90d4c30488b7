import NestClient.Extract.Classification
import NestClient.Text.Quoted

/-! What a run reports about itself as it goes. -/

namespace NestClient

inductive Level where
  | debug
  | info
  | warning
  deriving DecidableEq, Repr

def Level.name : Level → Text
  | debug => "DEBUG".toList
  | info => "INFO".toList
  | warning => "WARNING".toList

/-- Why a body parameter is dropped. -/
inductive DroppedBody where
  | getHasNoBody
  | secondBody
  deriving DecidableEq, Repr

def DroppedBody.text : DroppedBody → Text
  | getHasNoBody => "GET has no body".toList
  | secondBody => "only one body per request".toList

/-- One thing worth reporting. -/
inductive Event where
  | projectLoaded (config : Text)
  | fileSkipped (problem : Text)
  | fileUnusable (problem : Text)
  | prefixMissing (constant file default : Text)
  | usingPrefix (apiPrefix : Text)
  | controllerFound (name basePath file : Text)
  | controllerEmpty (name : Text)
  | bodyDropped (controller method parameter : Text) (reason : DroppedBody)
  | parameterIgnored (controller method parameter : Text) (reason : IgnoreReason)
  | clientGenerated (file : Text) (methods : Nat)
  | directoryEmptied (directory : Text) (removed : Nat)
  | fileWritten (file : Text)
  | manifestGenerated (file : Text) (clients : Nat)
  deriving DecidableEq, Repr

namespace Event

def level : Event → Level
  | parameterIgnored .. | fileWritten .. => .debug
  | fileSkipped .. | fileUnusable .. | bodyDropped .. => .warning
  | projectLoaded .. | prefixMissing .. | usingPrefix .. | controllerFound .. | controllerEmpty ..
  | clientGenerated .. | directoryEmptied .. | manifestGenerated .. => .info

def message : Event → Text
  | projectLoaded config => "Project loaded from ".toList ++ config
  | fileSkipped problem => "Skipping ".toList ++ problem
  | fileUnusable problem => problem
  | prefixMissing constant file default =>
    constant ++ " not found in ".toList ++ file ++ ", using default ".toList ++ Text.quoted default
  | usingPrefix apiPrefix => "Using API_PREFIX: ".toList ++ apiPrefix
  | controllerFound name basePath file =>
    "Found controller ".toList ++ name ++ " at ".toList ++ Text.quoted basePath ++ " (".toList
      ++ file ++ ")".toList
  | controllerEmpty name => "No API methods found in ".toList ++ name ++ ", skipping".toList
  | bodyDropped controller method parameter reason =>
    controller ++ ".".toList ++ method ++ ": dropping body parameter ".toList
      ++ Text.quoted parameter ++ " (".toList ++ reason.text ++ ")".toList
  | parameterIgnored controller method parameter reason =>
    controller ++ ".".toList ++ method ++ ": ignoring ".toList ++ Text.quoted parameter
      ++ " (".toList ++ reason.text ++ ")".toList
  | clientGenerated file methods =>
    "Generated ".toList ++ file ++ " (".toList ++ Text.ofNat methods ++ " methods)".toList
  | directoryEmptied directory removed =>
    "Emptied directory: ".toList ++ directory ++ " (".toList ++ Text.ofNat removed
      ++ " entries removed)".toList
  | fileWritten file => "Wrote ".toList ++ file
  | manifestGenerated file clients =>
    "Generated ".toList ++ file ++ " with ".toList ++ Text.ofNat clients
      ++ " service exports".toList

end Event

end NestClient
