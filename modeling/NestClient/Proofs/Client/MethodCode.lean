import NestClient.Client.Source
import NestClient.Proofs.Text.Affix

/-! The code of a client method with its identifiers told apart from the text around them: where a name
is declared, where one is used, and which declaration the use is meant for. The words of the language,
the members of `this` and of other objects, types and literals are plain text.

* `methodCode`: the code of an endpoint's method in this form.
* `lines_methodCode`: it is printed as the lines of the client. -/

namespace NestClient.Client

/-! ## Code -/

/-- Where an identifier of a method is declared, or is meant to be. -/
inductive Origin where
  | parameter
  /-- In the body of the method. -/
  | body
  /-- By the function that goes over the entries of an object. -/
  | entry
  /-- Outside of the method: by an import, or by the language. -/
  | outer
  deriving DecidableEq, Repr

inductive Fragment where
  | plain (t : Text)
  | declare (name : Text) (origin : Origin)
  | use (name : Text) (origin : Origin)
  deriving DecidableEq, Repr

def Fragment.text : Fragment → Text
  | plain t => t
  | declare name _ => name
  | use name _ => name

def codeText (code : List Fragment) : Text := code.flatMap Fragment.text

inductive Statement where
  | line (code : List Fragment)
  /-- A call with a function: what stands before its names, these, what stands behind them, the lines of
  the function and the end of the call. -/
  | function (head : List Fragment) (names : List Text) (opening : Text) (inner : List (List Fragment))
      (closing : Text)
  deriving DecidableEq, Repr

def Statement.lines : Statement → List Text
  | line code => [codeText code]
  | function head names opening inner closing =>
    (codeText head ++ Text.join ", ".toList names ++ opening) :: inner.map codeText ++ [closing]

/-- Pieces of code with a plain separator between neighbours. -/
def joinCode (sep : Text) (parts : List (List Fragment)) : List Fragment :=
  List.intercalate [.plain sep] parts

@[simp] theorem codeText_nil : codeText [] = [] := rfl

@[simp] theorem codeText_cons (f : Fragment) (code : List Fragment) :
    codeText (f :: code) = f.text ++ codeText code := rfl

@[simp] theorem codeText_append (code more : List Fragment) :
    codeText (code ++ more) = codeText code ++ codeText more := List.flatMap_append

@[simp] theorem text_plain (t : Text) : (Fragment.plain t).text = t := rfl

@[simp] theorem text_declare (name : Text) (origin : Origin) :
    (Fragment.declare name origin).text = name := rfl

@[simp] theorem text_use (name : Text) (origin : Origin) : (Fragment.use name origin).text = name := rfl

theorem joinCode_cons_cons (sep : Text) (first second : List Fragment) (more : List (List Fragment)) :
    joinCode sep (first :: second :: more) = first ++ (.plain sep :: joinCode sep (second :: more)) := by
  simp [joinCode, List.intercalate]

theorem joinCode_singleton (sep : Text) (part : List Fragment) : joinCode sep [part] = part := by
  simp [joinCode, List.intercalate]

theorem codeText_joinCode (sep : Text) (parts : List (List Fragment)) :
    codeText (joinCode sep parts) = Text.join sep (parts.map codeText) := by
  have hsep : [Fragment.plain sep].flatMap Fragment.text = sep := List.append_nil sep
  rw [codeText, joinCode, Text.flatMap_intercalate, hsep]
  rfl

/-! ## The signature -/

/-- What stands behind a parameter's name in the signature, before the later parameters. -/
def declaredType (p : Parameter) (later : List Parameter) : Text :=
  if !p.optional then ": ".toList ++ p.type.expression
  else if later.any (!·.optional) then ": ".toList ++ p.type.expression ++ " | undefined".toList
  else "?: ".toList ++ p.type.expression

def parameterCode : List Parameter → List (List Fragment)
  | [] => []
  | p :: later =>
    [.declare p.name .parameter, .plain (declaredType p later)] :: parameterCode later

theorem codeText_parameterCode (ps : List Parameter) :
    (parameterCode ps).map codeText = declareParameters ps := by
  induction ps with
  | nil => rfl
  | cons p later ih =>
    rw [parameterCode, declareParameters, List.map_cons, ih]
    congr 1
    simp only [codeText_cons, codeText_nil, text_declare, text_plain, List.append_nil, declaredType]
    split
    · rw [List.append_assoc]
    · split <;> simp only [List.append_assoc]

/-! ## The URL -/

def interpolateCodeUpTo (table : List (Text × Text)) : Nat → Bool → Text → List Fragment
  | 0, _, t => [.plain t]
  | _ + 1, _, [] => []
  | bound + 1, atStart, c :: rest =>
    match if atStart then placeholder? table (c :: rest) else none with
    | some (key, name, after) =>
      [.plain "$\x7b".toList, .use name .parameter, .plain "\x7d".toList]
        ++ interpolateCodeUpTo table bound (key.getLast? = some '/') after
    | none => .plain [c] :: interpolateCodeUpTo table bound (c = '/') rest

theorem codeText_interpolateCodeUpTo (table : List (Text × Text)) (bound : Nat) (atStart : Bool)
    (t : Text) : codeText (interpolateCodeUpTo table bound atStart t)
      = interpolateUpTo table bound atStart t := by
  induction bound generalizing atStart t with
  | zero => simp [interpolateCodeUpTo, interpolateUpTo]
  | succ bound ih =>
    cases t with
    | nil => rfl
    | cons c rest =>
      rw [interpolateCodeUpTo, interpolateUpTo]
      cases (if atStart then placeholder? table (c :: rest) else none) with
      | none => simp [ih]
      | some found =>
        obtain ⟨key, name, after⟩ := found
        simp [ih, interpolation]

def pathCode (e : Endpoint) : List Fragment :=
  interpolateCodeUpTo (longestFirst (pathNames e)) (escapeTemplate e.route).length true
    (escapeTemplate e.route)

def urlCode (e : Endpoint) : List Fragment :=
  .plain "\x60$\x7bthis.BASE_URL\x7d".toList ::
    ((if (codeText (pathCode e)).isEmpty then [] else .plain ['/'] :: pathCode e) ++ [.plain ['\x60']])

theorem codeText_urlCode (e : Endpoint) : codeText (urlCode e) = urlExpression e := by
  have hpath : codeText (pathCode e) = interpolate (longestFirst (pathNames e)) (escapeTemplate e.route) :=
    codeText_interpolateCodeUpTo _ _ _ _
  unfold urlCode urlExpression
  dsimp only
  rw [codeText_cons, codeText_append, hpath]
  split
  · simp
  · simp [hpath]

/-! ## The query -/

/-- The function that goes over the entries of an object binds these names. -/
def entryNames : List Text := ["key".toList, "value".toList]

/-- A condition on a value that is there: neither `undefined` nor `null`. -/
def presenceCode (indent : Text) (name : Text) (origin : Origin) : List Fragment :=
  [.plain (indent ++ "if (".toList), .use name origin, .plain " !== ".toList,
    .use "undefined".toList .outer, .plain " && ".toList, .use name origin,
    .plain " !== null) \x7b".toList]

/-- The line that sets a query parameter to the text of a value. -/
def setCode (indent : Text) (key : Fragment) (value : Text) (origin : Origin) : List Fragment :=
  [.plain indent, .use "params".toList .body, .plain " = ".toList, .use "params".toList .body,
    .plain ".set(".toList, key, .plain ", ".toList, .use "String".toList .outer, .plain ['('],
    .use value origin, .plain "));".toList]

def queryCode (q : QueryEntry) : List Statement :=
  let inner :=
    match q.key with
    | some (c :: key) =>
      [.line (setCode "      ".toList (.plain (stringLiteral (c :: key))) q.name .parameter)]
    | _ =>
      [.function [.plain "      ".toList, .use "Object".toList .outer, .plain ".entries(".toList,
          .use q.name .parameter, .plain ").forEach(([".toList]
        entryNames "]) => \x7b".toList
        [presenceCode "        ".toList "value".toList .entry,
          setCode "          ".toList (.use "key".toList .entry) "value".toList .entry,
          [.plain "        \x7d".toList]]
        "      \x7d);".toList]
  .line (presenceCode "    ".toList q.name .parameter) :: inner ++ [.line [.plain "    \x7d".toList]]

theorem lines_queryCode (q : QueryEntry) : (queryCode q).flatMap Statement.lines = queryLines q := by
  unfold queryCode queryLines
  rcases hkey : q.key with _ | _ | ⟨c, key⟩ <;>
    simp [Statement.lines, presenceCode, setCode, entryNames, Text.join, List.intercalate]

/-! ## The call -/

def bodyCode (p : Parameter) : List Fragment :=
  match p.key with
  | none => [.use p.name .parameter]
  | some key =>
    let field := if Text.isNameLine key then key else stringLiteral key
    [.plain ("\x7b ".toList ++ field ++ ": ".toList), .use p.name .parameter, .plain " \x7d".toList]

theorem codeText_bodyCode (p : Parameter) : codeText (bodyCode p) = bodyExpression p := by
  unfold bodyCode bodyExpression
  cases p.key <;> simp

def optionsCode (e : Endpoint) : List (List Fragment) :=
  let body :=
    match e.bodyParameter with
    | some p => if e.verb.takesBody then [] else [.plain "body: ".toList :: bodyCode p]
    | none => []
  if (e.withRole .query).isEmpty then body else [.use "params".toList .body] :: body

theorem codeText_optionsCode (e : Endpoint) : (optionsCode e).map codeText = requestOptions e := by
  have hbody : (match e.bodyParameter with
      | some p => if e.verb.takesBody then [] else [Fragment.plain "body: ".toList :: bodyCode p]
      | none => []).map codeText
      = match e.bodyParameter with
        | some p => if e.verb.takesBody then [] else ["body: ".toList ++ bodyExpression p]
        | none => [] := by
    cases e.bodyParameter with
    | none => rfl
    | some p => cases e.verb.takesBody <;> simp [codeText_bodyCode]
  unfold optionsCode requestOptions
  dsimp only
  split
  · exact hbody
  · rw [List.map_cons, hbody]
    rfl

/-- The body as an argument of its own: nothing is passed as an object without fields. -/
def bodyArgument : Option Parameter → List Fragment
  | some p => bodyCode p
  | none => [.plain "\x7b\x7d".toList]

def argumentsCode (e : Endpoint) : List (List Fragment) :=
  let body := if e.verb.takesBody then [bodyArgument e.bodyParameter] else []
  let options := optionsCode e
  let optionsArgument :=
    if options.isEmpty then []
    else [.plain "\x7b ".toList :: (joinCode ", ".toList options ++ [.plain " \x7d".toList])]
  [.use "url".toList .body] :: (body ++ optionsArgument)

theorem codeText_argumentsCode (e : Endpoint) : (argumentsCode e).map codeText = callArguments e := by
  have hempty : (optionsCode e).isEmpty = (requestOptions e).isEmpty := by
    rw [← codeText_optionsCode]
    cases optionsCode e <;> rfl
  unfold argumentsCode callArguments
  dsimp only
  rw [List.map_cons, List.map_append, hempty]
  congr 2
  · split
    · cases e.bodyParameter with
      | none => rfl
      | some p => simp [bodyArgument, codeText_bodyCode]
    · rfl
  · split
    · rfl
    · simp [codeText_joinCode, codeText_optionsCode]

/-! ## The method -/

def methodCode (e : Endpoint) : List Statement :=
  let query := (e.withRole .query).map fun p => (⟨p.name, p.key⟩ : QueryEntry)
  [.line (.plain ("  ".toList ++ e.methodName ++ "(".toList)
      :: (joinCode ", ".toList (parameterCode e.clientParameters)
        ++ [.plain ("): Observable<".toList ++ e.returnType.expression ++ "> \x7b".toList)])),
    .line ([.plain "    const ".toList, .declare "url".toList .body, .plain " = ".toList] ++ urlCode e
      ++ [.plain ";".toList])]
    ++ (if query.isEmpty then []
      else .line [.plain "    let ".toList, .declare "params".toList .body, .plain " = new ".toList,
        .use "HttpParams".toList .outer, .plain "();".toList] :: query.flatMap queryCode)
    ++ [.line (.plain ("    return this.http.".toList ++ e.verb.methodName ++ "<".toList
          ++ e.returnType.expression ++ ">(".toList)
        :: (joinCode ", ".toList (argumentsCode e) ++ [.plain ");".toList])),
      .line [.plain "  \x7d".toList]]

/-- The code is printed as the lines that the client has for the method. -/
theorem lines_methodCode (e : Endpoint) :
    (methodCode e).flatMap Statement.lines = codeLines (Method.ofEndpoint e) := by
  have hsignature : codeText (joinCode ", ".toList (parameterCode e.clientParameters)) = signature e := by
    rw [codeText_joinCode, codeText_parameterCode]
    rfl
  have harguments : codeText (joinCode ", ".toList (argumentsCode e))
      = Text.join ", ".toList (callArguments e) := by
    rw [codeText_joinCode, codeText_argumentsCode]
  have hquery : ∀ query : List QueryEntry,
      (query.flatMap queryCode).flatMap Statement.lines = query.flatMap queryLines := by
    intro query
    rw [List.flatMap_assoc]
    exact congrArg (List.flatMap · query) (funext lines_queryCode)
  unfold methodCode codeLines Method.ofEndpoint
  dsimp only
  rw [List.flatMap_append, List.flatMap_append]
  congr 1
  · congr 1
    · simp only [List.flatMap_cons, List.flatMap_nil, Statement.lines, codeText_cons, codeText_append,
        codeText_nil, text_plain, text_declare, hsignature, codeText_urlCode, List.append_assoc,
        List.append_nil, List.cons_append, List.nil_append]
      rfl
    · split
      · rfl
      · rw [List.flatMap_cons, hquery]
        rfl
  · simp only [List.flatMap_cons, List.flatMap_nil, Statement.lines, codeText_cons, codeText_append,
      codeText_nil, text_plain, harguments, List.append_assoc, List.append_nil, List.cons_append,
      List.nil_append]

end NestClient.Client
