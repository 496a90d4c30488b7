import NestClient.Client.Method
import NestClient.Client.Naming
import NestClient.Config
import NestClient.Path.Lexical

/-! The source of a client: an Angular service with one method for each endpoint. -/

namespace NestClient.Client

/-- Why a client has no source. -/
inductive RenderError where
  /-- A base module whose path is empty leads nowhere. -/
  | emptyPath
  deriving DecidableEq, Repr

def RenderError.message : RenderError → Text
  | emptyPath => "no path specified".toList

/-! ## Imports -/

/-- The path of a client's file below the output directory. -/
def filePath (g : EndpointGroup) : Text :=
  let name := clientFileName (clientClassName g.name)
  if g.folder.isEmpty then name else g.folder ++ '/' :: name

/-- How a client's file names a module that has its place relative to the manifest. -/
def baseImport (config : Config) (file module : Text) : Except RenderError Text :=
  let manifestDir := Path.directory (Path.normalize config.manifestPath)
  let fileDir := Path.directory (Path.under (Path.normalize config.outputDir) file)
  match Path.relative? (Path.under manifestDir module) fileDir with
  | some way => .ok (if way.head? = some '.' then way else "./".toList ++ way)
  | none => .error .emptyPath

/-- The symbols that the endpoints need from the shared types module. -/
def typeImports (endpoints : List Endpoint) : List Text :=
  Text.distinct (endpoints.flatMap (·.imports))

def importLine (names : List Text) (module : Text) : Text :=
  "import \x7b ".toList ++ Text.join ", ".toList names ++ " \x7d from ".toList
    ++ stringLiteral module ++ ";".toList

/-! ## Methods -/

/-- The lines that set one query parameter. -/
def queryLines (q : QueryEntry) : List Text :=
  let condition := "    if (".toList ++ q.name ++ " !== undefined && ".toList ++ q.name
    ++ " !== null) \x7b".toList
  let body :=
    match q.key with
    | some (c :: key) =>
      ["      params = params.set(".toList ++ stringLiteral (c :: key) ++ ", String(".toList
        ++ q.name ++ "));".toList]
    | _ =>
      ["      Object.entries(".toList ++ q.name ++ ").forEach(([key, value]) => \x7b".toList,
        "        if (value !== undefined && value !== null) \x7b".toList,
        "          params = params.set(key, String(value));".toList,
        "        \x7d".toList,
        "      \x7d);".toList]
  condition :: body ++ ["    \x7d".toList]

/-- The comment above a method. -/
def docLines (m : Method) : List Text :=
  ["  /**".toList,
    "   * ".toList ++ m.name ++ " - ".toList ++ m.verb.name ++ " /".toList ++ m.route,
    "   *".toList]
    ++ (m.parameters.map fun (name, label) =>
      "   * @param ".toList ++ name ++ " - ".toList ++ label ++ " parameter".toList)
    ++ ["   * @returns Observable<".toList ++ m.returnType ++ ">".toList,
      "   */".toList]

def codeLines (m : Method) : List Text :=
  let declareParams :=
    if m.query.isEmpty then []
    else "    let params = new HttpParams();".toList :: m.query.flatMap queryLines
  ["  ".toList ++ m.name ++ "(".toList ++ m.signature ++ "): Observable<".toList ++ m.returnType
      ++ "> \x7b".toList,
    "    const url = ".toList ++ m.url ++ ";".toList]
    ++ declareParams
    ++ ["    return this.http.".toList ++ m.verb.methodName ++ "<".toList ++ m.returnType
        ++ ">(".toList ++ Text.join ", ".toList m.callArguments ++ ");".toList,
      "  \x7d".toList]

/-- The lines of a method, with an empty one before it. -/
def methodLines (m : Method) : List Text := [] :: docLines m ++ codeLines m

/-! ## The whole file -/

def importLines (config : Config) (imports : List Text) (usesParams : Bool)
    (baseModule configModule : Text) : List Text :=
  [importLine ["Injectable".toList] "@angular/core".toList,
    importLine ("HttpClient".toList :: if usesParams then ["HttpParams".toList] else [])
      "@angular/common/http".toList,
    importLine ["Observable".toList] "rxjs".toList]
    ++ (if imports.isEmpty then [] else [importLine imports config.sharedTypesModule])
    ++ [importLine ["BaseApiService".toList] baseModule,
      importLine ["AppConfigService".toList] configModule]

/-- The comment and the head of the class, up to its first method. -/
def classLines (g : EndpointGroup) : List Text :=
  let className := clientClassName g.name
  [[],
    "/**".toList,
    " * ".toList ++ className ++ " - Angular service for ".toList ++ g.name,
    " * Auto-generated by api-client-generator from ".toList ++ g.sourceFile
      ++ ". Do not edit.".toList,
    " */".toList,
    "@Injectable(\x7b".toList,
    "  providedIn: 'root',".toList,
    "\x7d)".toList,
    "export class ".toList ++ className ++ " extends BaseApiService \x7b".toList,
    "  constructor(http: HttpClient, config: AppConfigService) \x7b".toList,
    "    super(http, config);".toList,
    "  \x7d".toList]

/-- All lines, each with its line feed. -/
def unlines (lines : List Text) : Text := lines.flatMap (· ++ ['\n'])

/-- The file of a controller's client. -/
def render (config : Config) (g : EndpointGroup) (endpoints : List Endpoint) :
    Except RenderError GeneratedFile := do
  let path := filePath g
  let methods := endpoints.map Method.ofEndpoint
  let usesParams := methods.any fun m => !m.query.isEmpty
  let baseModule ← baseImport config path config.baseServiceModule
  let configModule ← baseImport config path config.configServiceModule
  let lines := importLines config (typeImports endpoints) usesParams baseModule configModule
    ++ classLines g ++ methods.flatMap methodLines ++ ["\x7d".toList]
  return { path, contents := unlines lines, className := clientClassName g.name }

end NestClient.Client
