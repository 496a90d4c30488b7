import NestClient.Proofs.Client.WireKey
import NestClient.Proofs.TypeScript.Comments

/-! The file of a client with its comments and its code told apart, and in the code what the client's
template says from what is put into it: names, types and literals.

* `filePieces`: the pieces of a file.
* `texts_filePieces`: together they are the contents that the client has. -/

namespace NestClient.Client

open TypeScript (Piece)
open TypeScript.Piece (code comment inserted texts)

/-! ## Texts of pieces -/

@[simp] theorem texts_nil : texts [] = [] := rfl

@[simp] theorem texts_cons (p : Piece) (pieces : List Piece) : texts (p :: pieces) = p.text ++ texts pieces :=
  List.flatMap_cons

@[simp] theorem texts_append (pieces more : List Piece) :
    texts (pieces ++ more) = texts pieces ++ texts more :=
  List.flatMap_append

@[simp] theorem text_code (t : Text) : (Piece.code t).text = t := rfl

@[simp] theorem text_inserted (t : Text) : (Piece.inserted t).text = t := rfl

@[simp] theorem text_comment (inner : Text) :
    (Piece.comment inner).text = "/*".toList ++ inner ++ "*/".toList := rfl

def separated (sep : Text) (parts : List (List Piece)) : List Piece := List.intercalate [.code sep] parts

theorem texts_separated (sep : Text) (parts : List (List Piece)) :
    texts (separated sep parts) = Text.join sep (parts.map texts) := by
  rw [texts, separated, Text.flatMap_intercalate]
  simp [Text.join]
  rfl

theorem unlines_cons (line : Text) (lines : List Text) :
    unlines (line :: lines) = line ++ '\n' :: unlines lines := by
  rw [unlines, List.flatMap_cons, List.append_assoc]
  rfl

theorem unlines_nil : unlines [] = [] := rfl

theorem unlines_append (lines more : List Text) : unlines (lines ++ more) = unlines lines ++ unlines more :=
  List.flatMap_append

/-! ## Imports -/

def importPieces (names : List Piece) (module : Piece) : List Piece :=
  code "import \x7b ".toList :: (separated ", ".toList (names.map ([·]))
    ++ [code " \x7d from ".toList, module, code (";".toList ++ ['\n'])])

theorem texts_importPieces (names : List Piece) {module : Piece} {path : Text}
    (h : module.text = stringLiteral path) :
    texts (importPieces names module) = unlines [importLine (names.map Piece.text) path] := by
  have hnames : (names.map ([·])).map texts = names.map Piece.text := by
    rw [List.map_map]
    exact List.map_congr_left fun p _ => List.append_nil _
  unfold importPieces importLine
  simp only [texts_cons, texts_append, texts_separated, texts_nil, text_code, hnames, h, unlines_cons,
    unlines_nil, List.append_assoc, List.append_nil]

/-! ## Comments -/

/-- What stands between the marks of a comment that takes some lines. -/
def commentText (indent : Text) (lines : List Text) : Text := '*' :: '\n' :: (unlines lines ++ indent ++ [' '])

theorem texts_comment (indent : Text) (lines : List Text) :
    indent ++ texts [.comment (commentText indent lines), .code ['\n']]
      = unlines ((indent ++ "/**".toList) :: lines ++ [indent ++ " */".toList]) := by
  have hopen : "/**".toList = "/*".toList ++ ['*'] := rfl
  have hclose : " */".toList = ' ' :: "*/".toList := rfl
  rw [hopen, hclose]
  simp only [commentText, texts_cons, texts_nil, text_comment, text_code, unlines_cons, unlines_append,
    unlines_nil, List.append_assoc, List.append_nil, List.cons_append, List.nil_append]

/-- The lines of the class comment, those of its marks apart. -/
def classNotes (g : EndpointGroup) : List Text :=
  [" * ".toList ++ clientClassName g.name ++ " - Angular service for ".toList ++ g.name,
    " * Auto-generated by api-client-generator from ".toList ++ g.sourceFile ++ ". Do not edit.".toList]

/-- The lines of a method's comment, those of its marks apart. -/
def methodNotes (m : Method) : List Text :=
  ["   * ".toList ++ m.name ++ " - ".toList ++ m.verb.name ++ " /".toList ++ m.route, "   *".toList]
    ++ (m.parameters.map fun (name, label) =>
      "   * @param ".toList ++ name ++ " - ".toList ++ label ++ " parameter".toList)
    ++ ["   * @returns Observable<".toList ++ m.returnType ++ ">".toList]

theorem docLines_eq (m : Method) : docLines m
    = ("  ".toList ++ "/**".toList) :: methodNotes m ++ ["  ".toList ++ " */".toList] := by
  unfold docLines methodNotes
  simp only [List.append_assoc, List.cons_append, List.nil_append]
  rfl

/-! ## The class -/

def classPieces (g : EndpointGroup) : List Piece :=
  [code ['\n'], comment (commentText [] (classNotes g)), code ['\n'],
    code (unlines ["@Injectable(\x7b".toList, "  providedIn: 'root',".toList, "\x7d)".toList]
      ++ "export class ".toList),
    inserted (clientClassName g.name),
    code (" extends BaseApiService \x7b".toList ++ '\n' ::
      unlines ["  constructor(http: HttpClient, config: AppConfigService) \x7b".toList,
        "    super(http, config);".toList, "  \x7d".toList])]

theorem texts_classPieces (g : EndpointGroup) : texts (classPieces g) = unlines (classLines g) := by
  have hlines : classLines g = [] :: (([] ++ "/**".toList) :: classNotes g ++ [[] ++ " */".toList])
      ++ ["@Injectable(\x7b".toList, "  providedIn: 'root',".toList, "\x7d)".toList,
        "export class ".toList ++ clientClassName g.name ++ " extends BaseApiService \x7b".toList,
        "  constructor(http: HttpClient, config: AppConfigService) \x7b".toList,
        "    super(http, config);".toList, "  \x7d".toList] := by
    unfold classLines classNotes
    rfl
  rw [hlines, List.cons_append, unlines_cons, unlines_append, ← texts_comment]
  unfold classPieces
  simp only [texts_cons, texts_nil, text_code, text_inserted, unlines_cons, unlines_nil,
    List.append_assoc, List.append_nil, List.cons_append, List.nil_append]

/-! ## A method -/

def parameterPieces : List Parameter → List (List Piece)
  | [] => []
  | p :: later =>
    let (mark, suffix) :=
      if !p.optional then (": ".toList, [])
      else if later.any (!·.optional) then (": ".toList, " | undefined".toList)
      else ("?: ".toList, [])
    [inserted p.name, code mark, inserted p.type.expression, code suffix] :: parameterPieces later

def queryPieces (q : QueryEntry) : List Piece :=
  let inner :=
    match q.key with
    | some (c :: key) =>
      [code "      params = params.set(".toList, inserted (stringLiteral (c :: key)),
        code ", String(".toList, inserted q.name, code ("));".toList ++ ['\n'])]
    | _ =>
      [code "      Object.entries(".toList, inserted q.name,
        code (").forEach(([key, value]) => \x7b".toList ++ '\n' ::
          unlines ["        if (value !== undefined && value !== null) \x7b".toList,
            "          params = params.set(key, String(value));".toList, "        \x7d".toList,
            "      \x7d);".toList])]
  [code "    if (".toList, inserted q.name, code " !== undefined && ".toList, inserted q.name,
    code (" !== null) \x7b".toList ++ ['\n'])] ++ inner ++ [code (unlines ["    \x7d".toList])]

def bodyPieces (p : Parameter) : List Piece :=
  match p.key with
  | none => [inserted p.name]
  | some key =>
    [code "\x7b ".toList, inserted (fieldName key), code ": ".toList, inserted p.name,
      code " \x7d".toList]

def optionPieces (e : Endpoint) : List (List Piece) :=
  let body :=
    match e.bodyParameter with
    | some p => if e.verb.takesBody then [] else [code "body: ".toList :: bodyPieces p]
    | none => []
  if (e.withRole .query).isEmpty then body else [code "params".toList] :: body

def argumentPieces (e : Endpoint) : List (List Piece) :=
  let body :=
    if e.verb.takesBody then
      [match e.bodyParameter with
        | some p => bodyPieces p
        | none => [code "\x7b\x7d".toList]]
    else []
  let options :=
    if (optionPieces e).isEmpty then []
    else [code "\x7b ".toList :: (separated ", ".toList (optionPieces e) ++ [code " \x7d".toList])]
  [code "url".toList] :: (body ++ options)

def paramsPieces (query : List QueryEntry) : List Piece :=
  if query.isEmpty then []
  else code (unlines ["    let params = new HttpParams();".toList]) :: query.flatMap queryPieces

def methodPieces (e : Endpoint) : List Piece :=
  [code ('\n' :: "  ".toList), comment (commentText "  ".toList (methodNotes (.ofEndpoint e))),
      code ['\n'], code "  ".toList, inserted e.methodName, code "(".toList]
    ++ separated ", ".toList (parameterPieces e.clientParameters)
    ++ [code "): Observable<".toList, inserted e.returnType.expression,
      code ("> \x7b".toList ++ '\n' :: "    const url = ".toList), inserted (urlExpression e),
      code (";".toList ++ ['\n'])]
    ++ paramsPieces ((e.withRole .query).map fun p => ⟨p.name, p.key⟩)
    ++ [code ("    return this.http.".toList ++ e.verb.methodName ++ "<".toList),
      inserted e.returnType.expression, code ">(".toList]
    ++ separated ", ".toList (argumentPieces e)
    ++ [code (");".toList ++ '\n' :: unlines ["  \x7d".toList])]

theorem texts_parameterPieces (ps : List Parameter) :
    (parameterPieces ps).map texts = declareParameters ps := by
  induction ps with
  | nil => rfl
  | cons p later ih =>
    rw [parameterPieces, declareParameters, List.map_cons, ih]
    congr 1
    split
    · simp
    · split <;> simp

theorem texts_queryPieces (q : QueryEntry) : texts (queryPieces q) = unlines (queryLines q) := by
  unfold queryPieces queryLines
  rcases q.key with _ | _ | ⟨c, key⟩ <;>
    simp only [texts_cons, texts_nil, text_code, text_inserted, unlines_cons, unlines_nil,
      List.append_assoc, List.append_nil, List.cons_append, List.nil_append]

theorem texts_bodyPieces (p : Parameter) : texts (bodyPieces p) = bodyExpression p := by
  unfold bodyPieces bodyExpression
  cases p.key <;> simp [fieldName]

theorem texts_optionPieces (e : Endpoint) : (optionPieces e).map texts = requestOptions e := by
  unfold optionPieces requestOptions
  cases e.bodyParameter <;> cases e.verb.takesBody <;> cases (e.withRole .query).isEmpty
    <;> simp [texts_bodyPieces]

theorem texts_argumentPieces (e : Endpoint) : (argumentPieces e).map texts = callArguments e := by
  have hempty : (optionPieces e).isEmpty = (requestOptions e).isEmpty := by
    rw [← texts_optionPieces]
    cases optionPieces e <;> rfl
  unfold argumentPieces callArguments
  dsimp only
  rw [List.map_cons, List.map_append, hempty]
  congr 2
  · cases e.bodyParameter <;> cases e.verb.takesBody <;> simp [texts_bodyPieces]
  · split
    · rfl
    · simp [texts_separated, texts_optionPieces]

theorem texts_paramsPieces (query : List QueryEntry) : texts (paramsPieces query)
    = unlines (if query.isEmpty then []
      else "    let params = new HttpParams();".toList :: query.flatMap queryLines) := by
  unfold paramsPieces
  split
  · rfl
  · rw [texts_cons, text_code, unlines_cons, unlines_cons, unlines_nil, List.append_assoc,
      List.cons_append, List.nil_append, unlines, texts, List.flatMap_assoc, List.flatMap_assoc]
    exact congrArg (_ ++ '\n' :: List.flatMap · query) (funext texts_queryPieces)

theorem texts_methodPieces (e : Endpoint) :
    texts (methodPieces e) = unlines (methodLines (.ofEndpoint e)) := by
  have hsignature : texts (separated ", ".toList (parameterPieces e.clientParameters)) = signature e := by
    rw [texts_separated, texts_parameterPieces]
    rfl
  have harguments : texts (separated ", ".toList (argumentPieces e))
      = Text.join ", ".toList (callArguments e) := by
    rw [texts_separated, texts_argumentPieces]
  rw [methodLines, docLines_eq, List.cons_append, unlines_cons, unlines_append, ← texts_comment]
  unfold methodPieces codeLines
  simp only [texts_cons, texts_append, texts_nil, text_code, text_inserted, hsignature, harguments,
    texts_paramsPieces, unlines_cons, unlines_append, unlines_nil, List.append_assoc, List.append_nil,
    List.cons_append, List.nil_append]
  rfl

/-! ## The file -/

/-- The pieces of a client's file, with what the file imports its base modules from. -/
def filePieces (config : Config) (g : EndpointGroup) (endpoints : List Endpoint)
    (baseModule configModule : Text) : List Piece :=
  let usesParams := (endpoints.map Method.ofEndpoint).any fun m => !m.query.isEmpty
  importPieces [code "Injectable".toList] (code (stringLiteral "@angular/core".toList))
    ++ importPieces
      (code "HttpClient".toList :: if usesParams then [code "HttpParams".toList] else [])
      (code (stringLiteral "@angular/common/http".toList))
    ++ importPieces [code "Observable".toList] (code (stringLiteral "rxjs".toList))
    ++ (if (typeImports endpoints).isEmpty then []
      else importPieces ((typeImports endpoints).map inserted)
        (inserted (stringLiteral config.sharedTypesModule)))
    ++ importPieces [code "BaseApiService".toList] (inserted (stringLiteral baseModule))
    ++ importPieces [code "AppConfigService".toList] (inserted (stringLiteral configModule))
    ++ classPieces g ++ endpoints.flatMap methodPieces ++ [code (unlines ["\x7d".toList])]

theorem texts_flatMap_methodPieces (endpoints : List Endpoint) : texts (endpoints.flatMap methodPieces)
    = unlines ((endpoints.map Method.ofEndpoint).flatMap methodLines) := by
  rw [texts, unlines, List.flatMap_assoc, List.flatMap_assoc, List.flatMap_map]
  exact congrArg (List.flatMap · endpoints) (funext texts_methodPieces)

theorem texts_filePieces {config : Config} {g : EndpointGroup} {endpoints : List Endpoint}
    {file : GeneratedFile} (h : render config g endpoints = .ok file) :
    ∃ baseModule configModule,
      baseImport config (filePath g) config.baseServiceModule = .ok baseModule ∧
      baseImport config (filePath g) config.configServiceModule = .ok configModule ∧
      file.contents = texts (filePieces config g endpoints baseModule configModule) := by
  obtain ⟨baseModule, configModule, hbase, hconfig, rfl⟩ := exists_of_render h
  refine ⟨baseModule, configModule, hbase, hconfig, ?_⟩
  have htypes : texts (if (typeImports endpoints).isEmpty then []
      else importPieces ((typeImports endpoints).map .inserted)
        (.inserted (stringLiteral config.sharedTypesModule)))
      = unlines (if (typeImports endpoints).isEmpty then []
        else [importLine (typeImports endpoints) config.sharedTypesModule]) := by
    split
    · rfl
    · have hnames : ((typeImports endpoints).map Piece.inserted).map Piece.text = typeImports endpoints := by
        rw [List.map_map]
        exact List.map_id _
      rw [texts_importPieces _ (text_inserted _), hnames]
  have hparams (usesParams : Bool) : (Piece.code "HttpClient".toList
        :: if usesParams then [Piece.code "HttpParams".toList] else []).map Piece.text
      = "HttpClient".toList :: if usesParams then ["HttpParams".toList] else [] := by
    cases usesParams <;> rfl
  unfold filePieces importLines
  simp only [texts_append, texts_cons, texts_nil, texts_importPieces _ (text_code _),
    texts_importPieces _ (text_inserted _), htypes, hparams, texts_classPieces,
    texts_flatMap_methodPieces, text_code, unlines_append, unlines_cons, unlines_nil, List.map_cons,
    List.map_nil, List.append_assoc, List.append_nil, List.cons_append, List.nil_append]

end NestClient.Client
