import NestClient.Client.Source
import NestClient.Proofs.Text.Distinct

/-! What the file of a client imports.

* `exists_of_render`: a client that is rendered names its base modules, wherever they are.
* `HasImports`: the lines of the file up to its class.
* `hasImports_of_render`: these are what the endpoints of the client need. -/

namespace NestClient.Client

theorem count_typeImports {endpoints : List Endpoint} {e : Endpoint} (he : e ∈ endpoints)
    {symbol : Text} (h : symbol ∈ e.imports) : (typeImports endpoints).count symbol = 1 :=
  Text.count_distinct (List.mem_flatMap.2 ⟨e, he, h⟩)

variable {config : Config} {g : EndpointGroup} {endpoints : List Endpoint} {file : GeneratedFile}

/-- A client that is rendered names its base modules, wherever they are. -/
theorem exists_of_render (h : render config g endpoints = .ok file) :
    ∃ baseModule configModule,
      baseImport config (filePath g) config.baseServiceModule = .ok baseModule ∧
      baseImport config (filePath g) config.configServiceModule = .ok configModule ∧
      file = {
        path := filePath g
        contents := unlines (importLines config (typeImports endpoints)
            ((endpoints.map Method.ofEndpoint).any fun m => !m.query.isEmpty) baseModule configModule
          ++ classLines g ++ (endpoints.map Method.ofEndpoint).flatMap methodLines ++ ["\x7d".toList])
        className := clientClassName g.name } := by
  unfold render at h
  dsimp only at h
  cases hbase : baseImport config (filePath g) config.baseServiceModule with
  | error fault =>
    rw [hbase] at h
    cases h
  | ok baseModule =>
    rw [hbase] at h
    cases hconfig : baseImport config (filePath g) config.configServiceModule with
    | error fault =>
      rw [hconfig] at h
      cases h
    | ok configModule =>
      rw [hconfig] at h
      exact ⟨baseModule, configModule, rfl, rfl, (Except.ok.inj h).symm⟩

/-! ## The lines that import -/

def isImport (line : Text) : Bool := "import ".toList.isPrefixOf line

/-- The file begins with its imports: from the framework, with this line for its HTTP module, then by these
lines from the shared types, and at last the base class and its configuration. After the empty line behind
them no line imports anything. -/
def HasImports (config : Config) (g : EndpointGroup) (http : Text) (shared : List Text) (contents : Text) :
    Prop :=
  ∃ baseModule configModule rest,
    baseImport config (filePath g) config.baseServiceModule = .ok baseModule ∧
    baseImport config (filePath g) config.configServiceModule = .ok configModule ∧
    rest.filter isImport = [] ∧
    contents = (["import \x7b Injectable \x7d from '@angular/core';".toList,
        http,
        "import \x7b Observable \x7d from 'rxjs';".toList]
      ++ shared
      ++ ["import \x7b BaseApiService \x7d from ".toList ++ stringLiteral baseModule ++ ";".toList,
        "import \x7b AppConfigService \x7d from ".toList ++ stringLiteral configModule ++ ";".toList,
        []]
      ++ rest).flatMap (· ++ ['\n'])

def clientOnlyLine : Text := "import \x7b HttpClient \x7d from '@angular/common/http';".toList

def clientAndParamsLine : Text :=
  "import \x7b HttpClient, HttpParams \x7d from '@angular/common/http';".toList

/-- The line that imports symbols from the shared types. -/
def sharedLine (config : Config) (symbols : List Text) : Text :=
  "import \x7b ".toList ++ Text.join ", ".toList symbols ++ " \x7d from ".toList
    ++ stringLiteral config.sharedTypesModule ++ ";".toList

/-- The lines for the symbols that endpoints need: one, or none if they need no symbol. -/
def sharedLines (config : Config) (endpoints : List Endpoint) : List Text :=
  if (typeImports endpoints).isEmpty then [] else [sharedLine config (typeImports endpoints)]

theorem filter_queryLines (q : QueryEntry) : (queryLines q).filter isImport = [] := by
  unfold queryLines
  rcases q.key with _ | _ | ⟨c, key⟩ <;> rfl

theorem filter_between {front inner back : List Text} (hfront : front.filter isImport = [])
    (hinner : inner.filter isImport = []) (hback : back.filter isImport = []) :
    (front ++ inner ++ back).filter isImport = [] := by
  rw [List.filter_append, List.filter_append, hfront, hinner, hback, List.append_nil, List.append_nil]

theorem filter_flatMap {α : Type} {f : α → List Text} (h : ∀ a, (f a).filter isImport = [])
    (items : List α) : (items.flatMap f).filter isImport = [] := by
  rw [List.filter_flatMap]
  exact List.flatMap_eq_nil_iff.2 fun a _ => h a

theorem filter_methodLines (m : Method) : (methodLines m).filter isImport = [] := by
  have hdoc : (docLines m).filter isImport = [] := by
    refine filter_between rfl ?_ rfl
    rw [List.filter_map, List.map_eq_nil_iff]
    exact List.filter_eq_nil_iff.2 fun _ _ => Bool.false_ne_true
  have hcode : (codeLines m).filter isImport = [] := by
    refine filter_between rfl ?_ rfl
    split
    · rfl
    · exact filter_flatMap filter_queryLines m.query
  rw [methodLines, List.filter_append, List.filter_cons_of_neg (by decide), hdoc, hcode,
    List.append_nil]

theorem hasImports_of_render (h : render config g endpoints = .ok file) :
    HasImports config g
      (if (endpoints.map Method.ofEndpoint).any fun m => !m.query.isEmpty then clientAndParamsLine
        else clientOnlyLine)
      (sharedLines config endpoints) file.contents := by
  obtain ⟨baseModule, configModule, hbase, hconfig, rfl⟩ := exists_of_render h
  have hrest : ((classLines g).tail ++ (endpoints.map Method.ofEndpoint).flatMap methodLines
      ++ ["\x7d".toList]).filter isImport = [] :=
    filter_between rfl (filter_flatMap filter_methodLines _) rfl
  refine ⟨baseModule, configModule, _, hbase, hconfig, hrest, ?_⟩
  have hclass : classLines g = [] :: (classLines g).tail := rfl
  have hcore : importLine ["Injectable".toList] "@angular/core".toList
      = "import \x7b Injectable \x7d from '@angular/core';".toList := by decide
  have hhttp (usesParams : Bool) : importLine
      ("HttpClient".toList :: if usesParams then ["HttpParams".toList] else []) "@angular/common/http".toList
        = if usesParams then clientAndParamsLine else clientOnlyLine := by
    cases usesParams <;> decide
  have hrxjs : importLine ["Observable".toList] "rxjs".toList
      = "import \x7b Observable \x7d from 'rxjs';".toList := by decide
  dsimp only
  rw [importLines, hcore, hhttp, hrxjs, hclass]
  simp only [List.append_assoc, List.cons_append, List.nil_append]
  rfl

end NestClient.Client
