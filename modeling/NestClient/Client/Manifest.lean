import NestClient.Client.Source

/-! The manifest: one file that exports every client. -/

namespace NestClient.Client

/-- What the manifest says of a generated file with so many endpoints. -/
def describe (config : Config) (file : GeneratedFile) (count : Nat) : ClientDescriptor :=
  let stem := (Text.dropTail? ".ts".toList file.path).getD file.path
  { className := file.className
    importPath := config.manifestImportRoot ++ '/' :: stem
    endpointCount := count }

/-- The order of exports: by class name in lower case, then by class name. -/
def exportsBefore (a b : ClientDescriptor) : Bool :=
  let la := Text.lower a.className
  let lb := Text.lower b.className
  if la = lb then Text.le a.className b.className else Text.le la lb

def exportLine (names : List Text) (module : Text) : Text :=
  "export \x7b ".toList ++ Text.join ", ".toList names ++ " \x7d from ".toList
    ++ stringLiteral module ++ ";".toList

def manifestLines (config : Config) (clients : List ClientDescriptor) : List Text :=
  ["// Export services".toList,
    exportLine ["BaseApiService".toList] ("./".toList ++ config.baseServiceModule),
    exportLine ["AppConfigService".toList, "ApiConfig".toList]
      ("./".toList ++ config.configServiceModule),
    [],
    "// Export auto-generated services".toList]
    ++ (Text.sortBy exportsBefore clients).map fun c => exportLine [c.className] c.importPath

def renderManifest (config : Config) (clients : List ClientDescriptor) : Text :=
  unlines (manifestLines config clients)

end NestClient.Client
