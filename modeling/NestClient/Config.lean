import NestClient.Path.Basic

/-! The fixed locations and conventions of a workspace. Every path is relative to its root. -/

namespace NestClient

/-- Directories that hold no sources of their own. -/
def defaultIgnores : List Text := [
  ".git".toList, "node_modules".toList, "dist".toList, "build".toList, "coverage".toList,
  ".nx".toList, ".angular".toList, "tmp".toList]

structure Config where
  tsconfigPath : Text := "tsconfig.base.json".toList
  controllerGlobs : List Text := ["apps/web-server/src/**/*.controller.ts".toList]
  controllersRoot : Text := "apps/web-server/src".toList
  outputDir : Text := "packages/api-client/src/api".toList
  manifestPath : Text := "packages/api-client/src/index.ts".toList
  /-- The module of the base service, as seen from the manifest's directory. -/
  baseServiceModule : Text := "services/base-api.service".toList
  /-- The module of the configuration service, as seen from the manifest's directory. -/
  configServiceModule : Text := "services/app-config.service".toList
  constantsFile : Text := "packages/types/src/constants/api.ts".toList
  prefixConstant : Text := "API_PREFIX".toList
  defaultApiPrefix : Text := "ai-nx-starter/rest/api/v2".toList
  sharedTypesModule : Text := "@ai-nx-starter/types".toList
  sharedTypesPathMarker : Text := "packages/types/".toList
  internalPathKeys : List Text := ["orgCode".toList]
  dtoSuffix : Text := "Dto".toList
  skippedFolderSegments : List Text := ["app".toList]
  ignoredDirs : List Text := defaultIgnores
  deriving DecidableEq, Repr

namespace Config

/-- A module that holds the types shared with the client. -/
def isSharedModule (config : Config) (specifier : Text) : Bool :=
  let spec := Text.replaceChar '\\' ['/'] specifier
  spec = config.sharedTypesModule
    || (config.sharedTypesModule ++ ['/']).isPrefixOf spec
    || Text.occurs config.sharedTypesPathMarker spec

def outputPath (config : Config) (workspace : Path) : Path :=
  workspace.append (.ofText config.outputDir)

/-- The file that exports the clients. -/
def manifestFile (config : Config) (workspace : Path) : Path :=
  workspace.append (.ofText config.manifestPath)

/-- The output directory as the manifest's imports name it. -/
def manifestImportRoot (config : Config) : Text :=
  let output := Path.ofText config.outputDir
  let manifestDir := (Path.ofText config.manifestPath).parent
  "./".toList ++ ((output.relativeTo? manifestDir).getD output).text

end Config

end NestClient
