import NestClient.Proofs.Client.ImportBlock
import NestClient.Proofs.Extract.Parameters
import NestClient.Proofs.TypeText.Resolve
import NestClient.Source

/-! The imports of an endpoint cover the shared types that its method mentions, as far as the file names
these types itself: in the braces of an import, or behind a namespace. A default import does not.

* `TypeSource.Mentions`: a declared type mentions a type of a module.
* `MethodNode.shownTypes`: the declared types of a method that its client method shows.
* `extract_imports`: what a shown type mentions is imported exactly if the file names it. -/

namespace NestClient

open TypeText (PlainModule Stands Shows EndsType)

/-! ## Mentions in declared types -/

namespace TypeScript

/-- The type that a piece names: its module and its name there. -/
def TypePiece.target? (imports : List ImportDecl) : TypePiece → Option (Text × Text)
  | plain _ => none
  | name written => (typeBindings imports).lookup written
  | qualified space member _ => ((namespaceBindings imports).lookup space).map (·, member)

theorem TypePiece.qualify_eq {imports : List ImportDecl} {piece : TypePiece} {module symbol : Text}
    (h : piece.target? imports = some (module, symbol)) :
    piece.qualify imports = reference module symbol := by
  cases piece with
  | plain written => simp [target?] at h
  | name written =>
    rw [target?] at h
    rw [qualify, h]
  | qualified space member written =>
    obtain ⟨found, hfound, heq⟩ := Option.map_eq_some_iff.1 h
    rw [Prod.mk.injEq] at heq
    rw [qualify, hfound, heq.1, heq.2]

/-- The type mentions a type of a module: one of its pieces names that, and the name ends there. -/
def TypeSource.Mentions (imports : List ImportDecl) (t : TypeSource) (module symbol : Text) : Prop :=
  ∃ before piece after, t = before ++ piece :: after ∧
    piece.target? imports = some (module, symbol) ∧
    EndsType symbol (TypeSource.qualify imports after)

theorem TypeSource.Mentions.stands {imports : List ImportDecl} {t : TypeSource}
    {module symbol : Text} (h : t.Mentions imports module symbol) :
    Stands module symbol (t.qualify imports) := by
  obtain ⟨before, piece, after, rfl, htarget, hafter⟩ := h
  refine ⟨TypeSource.qualify imports before, TypeSource.qualify imports after, ?_, hafter⟩
  rw [qualify, List.flatMap_append, List.flatMap_cons, TypePiece.qualify_eq htarget]
  rfl

end TypeScript

/-! ## The names that a file takes from a module -/

namespace SourceFile

/-- The file names the symbol in an import from a module of the class, or reaches it there through a
namespace. -/
def Names (f : SourceFile) (isShared : Text → Bool) (symbol : Text) : Prop :=
  (∃ i ∈ f.imports, isShared i.specifier = true ∧ ∃ localName, (symbol, localName) ∈ i.named) ∨
    ∃ module, isShared module = true ∧ (module, symbol) ∈ f.namespaceRefs

theorem mem_importedFrom {f : SourceFile} {isShared : Text → Bool} {symbol : Text} :
    symbol ∈ f.importedFrom isShared ↔ f.Names isShared symbol := by
  rw [importedFrom, Text.mem_distinct, List.mem_append, Names]
  refine or_congr ?_ ?_
  · simp only [List.mem_flatMap, List.mem_filter, List.mem_map, Prod.exists, exists_and_right,
      exists_eq_right, and_assoc]
  · simp only [List.mem_map, List.mem_filter, Prod.exists, exists_eq_right]
    exact exists_congr fun module => and_comm

end SourceFile

namespace TypeScript

theorem mem_of_lookup {α : Type} {bindings : List (Text × α)} {name : Text} {a : α}
    (h : bindings.lookup name = some a) : (name, a) ∈ bindings := by
  obtain ⟨front, back, rfl, -⟩ := List.lookup_eq_some_iff.1 h
  simp

/-- A name that is bound to a type stands in an import from the type's module: in its braces, or as its
default. -/
theorem exists_import_of_typeBinding {imports : List ImportDecl} {name module symbol : Text}
    (h : (typeBindings imports).lookup name = some (module, symbol)) :
    ∃ i ∈ imports, i.specifier = module ∧
      ((symbol, name) ∈ i.named ∨ i.defaultName = some symbol) := by
  have hmem := mem_of_lookup h
  rw [typeBindings, List.mem_reverse, List.mem_flatMap] at hmem
  obtain ⟨i, hi, hmem⟩ := hmem
  rw [List.mem_append, List.mem_map, List.mem_map] at hmem
  refine ⟨i, hi, ?_⟩
  rcases hmem with ⟨⟨imported, localName⟩, hnamed, heq⟩ | ⟨default, hdefault, heq⟩
  · simp only [Prod.mk.injEq] at heq
    obtain ⟨rfl, rfl, rfl⟩ := heq
    exact ⟨rfl, .inl hnamed⟩
  · simp only [Prod.mk.injEq] at heq
    obtain ⟨rfl, rfl, rfl⟩ := heq
    exact ⟨rfl, .inr (Option.mem_toList.1 hdefault)⟩

theorem mem_namespaceRefs_of_target? {imports : List ImportDecl} {t : TypeSource}
    {space member written module symbol : Text} (hmem : .qualified space member written ∈ t)
    (h : (TypePiece.qualified space member written).target? imports = some (module, symbol)) :
    (module, symbol) ∈ t.namespaceRefs imports := by
  rw [TypeSource.namespaceRefs, List.mem_filterMap]
  exact ⟨_, List.mem_reverse.2 hmem, h⟩

theorem mem_types_readFile {path : Text} {statements : List Statement} {outer : List DecoratorNode}
    {c : ClassNode} (hc : .classDecl outer c ∈ statements) {m : MethodNode}
    (hm : .method m ∈ c.members) {t : TypeSource} (ht : t ∈ m.types) {module symbol : Text}
    (h : (module, symbol) ∈ t.namespaceRefs (readFile path statements).imports) :
    (module, symbol) ∈ (readFile path statements).namespaceRefs := by
  change (module, symbol) ∈ Text.distinct ((statements.flatMap Statement.types).flatMap
    (·.namespaceRefs (readFile path statements).imports))
  rw [Text.mem_distinct, List.mem_flatMap]
  refine ⟨t, List.mem_flatMap.2 ⟨_, hc, ?_⟩, h⟩
  exact List.mem_flatMap.2 ⟨_, hm, ht⟩

/-- A type that a method mentions is one that the file names, or the default of an import. -/
theorem names_of_mentions {path : Text} {statements : List Statement} {outer : List DecoratorNode}
    {c : ClassNode} (hc : .classDecl outer c ∈ statements) {m : MethodNode}
    (hm : .method m ∈ c.members) {t : TypeSource} (ht : t ∈ m.types) {module symbol : Text}
    (h : t.Mentions (readFile path statements).imports module symbol) {isShared : Text → Bool}
    (hshared : isShared module = true) :
    (readFile path statements).Names isShared symbol ∨
      ∃ i ∈ (readFile path statements).imports, i.specifier = module ∧
        i.defaultName = some symbol := by
  obtain ⟨before, piece, after, rfl, htarget, -⟩ := h
  cases piece with
  | plain written => simp [TypePiece.target?] at htarget
  | name written =>
    obtain ⟨i, hi, hspec, hnamed | hdefault⟩ := exists_import_of_typeBinding htarget
    · exact .inl (.inl ⟨i, hi, by rw [hspec, hshared], written, hnamed⟩)
    · exact .inr ⟨i, hi, hspec, hdefault⟩
  | qualified space member written =>
    have href := mem_namespaceRefs_of_target? (t := before ++ .qualified space member written :: after)
      (List.mem_append_right _ List.mem_cons_self) htarget
    exact .inl (.inr ⟨module, hshared, mem_types_readFile hc hm ht href⟩)

/-! ## The types that a client method shows -/

/-- The declared types of a method that its endpoint shows, each with what it is resolved to: the return
type, and those of the parameters that are sent. -/
def MethodNode.shownTypes (m : MethodNode) (e : Endpoint) : List (TypeSource × ResolvedType) :=
  m.returnType.toList.map (·, e.returnType)
    ++ (m.parameters.zip e.parameters).filterMap fun (node, p) =>
      if p.role = .ignored then none else node.type.map (·, p.type)

theorem type_mem_of_shownTypes {m : MethodNode} {e : Endpoint} {t : TypeSource} {r : ResolvedType}
    (h : (t, r) ∈ m.shownTypes e) : t ∈ m.types := by
  rw [MethodNode.shownTypes, List.mem_append] at h
  rw [MethodNode.types, List.mem_append]
  rcases h with h | h
  · obtain ⟨_, ht, heq⟩ := List.mem_map.1 h
    obtain ⟨rfl, -⟩ := Prod.mk.inj heq
    exact .inr ht
  · obtain ⟨⟨node, p⟩, hzip, hshown⟩ := List.mem_filterMap.1 h
    dsimp only at hshown
    split at hshown
    · simp at hshown
    · obtain ⟨_, ht, heq⟩ := Option.map_eq_some_iff.1 hshown
      obtain ⟨rfl, -⟩ := Prod.mk.inj heq
      exact .inl (List.mem_filterMap.2 ⟨node, (List.of_mem_zip hzip).1, ht⟩)

end TypeScript

/-! ## Endpoints -/

theorem classify_type (p : ParameterDecl) (internalKeys : List Text) (cs : Constants) :
    (classify p internalKeys cs).type = (TypeText.stripMissing p.type).1 := by
  unfold classify
  dsimp only
  split
  · rfl
  · rfl
  · split
    · rfl
    · split
      · split <;> rfl
      · rfl

namespace Extractor

open TypeScript

theorem mem_zip_read {α : Type} {imports : List ImportDecl} {nodes : List ParameterNode}
    {node : ParameterNode} {items : List α} {item : α} (h : (node, item) ∈ nodes.zip items) :
    (node.read imports, item) ∈ (nodes.map (ParameterNode.read imports)).zip items := by
  rw [List.zip_map_left]
  exact List.mem_map_of_mem h

/-- The parameters of an endpoint are those declared, in order, with their types resolved. -/
theorem type_of_mem_zip {resolver : TypeText.Resolver} {available internalKeys : List Text}
    {cs : Constants} {verb : Verb} {imports : List ImportDecl} {hasBody : Bool}
    {nodes : List ParameterNode} {node : ParameterNode} {p : Parameter}
    (h : (node, p) ∈ nodes.zip ((bindParameters verb internalKeys cs hasBody
      (nodes.map (ParameterNode.read imports))).map (·.toParameter resolver available))) :
    p.type = resolver.resolve (TypeText.stripMissing (node.read imports).type).1 available := by
  obtain ⟨b, rfl, -, hclassified⟩ := bound_of_mem_zip (mem_zip_read h)
  rw [BoundParameter.toParameter, hclassified, classify_type]

variable {x : Extractor} {c : Controller} {path : Text} {statements : List Statement}

/-- What is shown for a type in which a reference stands: the symbol, imported if it is available. -/
theorem shownTypes_stands {m : MethodNode} {decorators : List DecoratorNode} {d : Decorator}
    {verb : Verb} {imports : List ImportDecl} {t : TypeSource} {r : ResolvedType}
    (h : (t, r) ∈ m.shownTypes (x.endpoint c (m.read imports decorators) d verb))
    {module symbol : Text} (hm : PlainModule module) (hs : Text.isName symbol = true)
    (hshared : x.config.isSharedModule module = true)
    (hmentions : t.Mentions imports module symbol) (hany : r ≠ .any) :
    Shows symbol r.expression ∧
      (symbol ∈ r.imports ↔ symbol ∈ c.source.importedFrom x.config.isSharedModule) := by
  rw [MethodNode.shownTypes, List.mem_append] at h
  rcases h with h | h
  · obtain ⟨t', ht, heq⟩ := List.mem_map.1 h
    obtain ⟨rfl, rfl⟩ := Prod.mk.inj heq
    rw [Option.mem_toList] at ht
    have hreturn : (m.read imports decorators).returnType = t'.qualify imports := by
      rw [MethodNode.read, ht]
      rfl
    have hresolved : (x.endpoint c (m.read imports decorators) d verb).returnType
        = x.config.resolver.resolve (t'.qualify imports)
          (c.source.importedFrom x.config.isSharedModule) := by
      rw [← hreturn]
      rfl
    rw [hresolved] at hany ⊢
    exact x.config.resolver.resolve_stands hm hs hshared hmentions.stands _ hany
  · obtain ⟨⟨node, p⟩, hzip, hshown⟩ := List.mem_filterMap.1 h
    dsimp only at hshown
    split at hshown
    · simp at hshown
    obtain ⟨t', ht, heq⟩ := Option.map_eq_some_iff.1 hshown
    obtain ⟨rfl, rfl⟩ := Prod.mk.inj heq
    have htype : (node.read imports).type = t'.qualify imports := by
      rw [ParameterNode.read, ht]
      rfl
    have hresolved := type_of_mem_zip hzip
    rw [htype] at hresolved
    rw [hresolved] at hany ⊢
    exact x.config.resolver.resolve_stands hm hs hshared (hmentions.stands.stripMissing hm hs) _ hany

theorem mem_imports {m : MethodDecl} {d : Decorator} {verb : Verb} {symbol : Text} :
    symbol ∈ (x.endpoint c m d verb).imports ↔
      symbol ∈ (x.endpoint c m d verb).returnType.imports ∨
        ∃ p ∈ (x.endpoint c m d verb).parameters, p.role ≠ .ignored ∧ symbol ∈ p.type.imports := by
  rw [endpoint, Text.mem_distinct, List.mem_append, List.mem_flatMap]
  simp only [List.mem_filter, decide_eq_true_eq, and_assoc]

theorem mem_imports_of_shownTypes {m : MethodNode} {decorators : List DecoratorNode} {d : Decorator}
    {verb : Verb} {imports : List ImportDecl} {t : TypeSource} {r : ResolvedType}
    (h : (t, r) ∈ m.shownTypes (x.endpoint c (m.read imports decorators) d verb)) {symbol : Text}
    (hsymbol : symbol ∈ r.imports) :
    symbol ∈ (x.endpoint c (m.read imports decorators) d verb).imports := by
  rw [mem_imports]
  rw [MethodNode.shownTypes, List.mem_append] at h
  rcases h with h | h
  · obtain ⟨_, -, heq⟩ := List.mem_map.1 h
    obtain ⟨-, rfl⟩ := Prod.mk.inj heq
    exact .inl hsymbol
  · obtain ⟨⟨node, p⟩, hzip, hshown⟩ := List.mem_filterMap.1 h
    dsimp only at hshown
    split at hshown
    · simp at hshown
    next hrole =>
      obtain ⟨_, -, heq⟩ := Option.map_eq_some_iff.1 hshown
      obtain ⟨-, rfl⟩ := Prod.mk.inj heq
      exact .inr ⟨p, (List.of_mem_zip hzip).2, hrole, hsymbol⟩

theorem of_mem_imports {m : MethodDecl} {d : Decorator} {verb : Verb} {symbol : Text}
    (h : symbol ∈ (x.endpoint c m d verb).imports) :
    symbol ∈ c.source.importedFrom x.config.isSharedModule ∧ Text.isName symbol = true := by
  rcases mem_imports.1 h with h | ⟨p, hp, -, h⟩
  · exact x.config.resolver.of_mem_imports h
  · obtain ⟨bound, -, rfl⟩ := List.mem_map.1 hp
    exact x.config.resolver.of_mem_imports h

end Extractor

/-! ## Endpoints of a file -/

namespace Extractor

open TypeScript

variable {x : Extractor} {c : Controller} {path : Text} {statements : List Statement}

theorem exists_method_of_mem_readMembers {imports : List ImportDecl} {members : List Member}
    {gathered : List DecoratorNode} {m : MethodDecl} (h : m ∈ readMembers imports gathered members) :
    ∃ node decorators, .method node ∈ members ∧ m = node.read imports decorators := by
  induction members generalizing gathered with
  | nil => simp [readMembers] at h
  | cons member members ih =>
    have hlater : ∀ g, m ∈ readMembers imports g members →
        ∃ node decorators, .method node ∈ member :: members ∧ m = node.read imports decorators := by
      intro g hg
      obtain ⟨node, decorators, hnode, heq⟩ := ih hg
      exact ⟨node, decorators, List.mem_cons_of_mem _ hnode, heq⟩
    cases member with
    | decorator d => exact hlater _ h
    | comment => exact hlater _ h
    | other => exact hlater _ h
    | method node =>
      rw [readMembers, List.mem_cons] at h
      rcases h with rfl | h
      · exact ⟨node, gathered ++ node.decorators, List.mem_cons_self, rfl⟩
      · exact hlater _ h

theorem exists_method_of_mem_extract {config : Config} {apiPrefix : Text} {shared : Constants}
    (hc : (readFile path statements).controller? config apiPrefix shared = some c) {e : Endpoint}
    (he : e ∈ x.extract c) :
    c.source = readFile path statements ∧ ∃ outer cls node decorators d verb,
      .classDecl outer cls ∈ statements ∧ .method node ∈ cls.members ∧
        e = x.endpoint c (node.read (readFile path statements).imports decorators) d verb := by
  obtain ⟨decl, hdecl, rfl⟩ := Option.map_eq_some_iff.1 hc
  refine ⟨rfl, ?_⟩
  obtain ⟨m, hm, hverb⟩ := List.mem_filterMap.1 he
  obtain ⟨⟨d, verb⟩, -, rfl⟩ := Option.map_eq_some_iff.1 hverb
  obtain ⟨statement, hstatement, hclass⟩ := List.mem_filterMap.1 (List.mem_of_find?_eq_some hdecl)
  cases statement with
  | classDecl outer cls =>
    rw [Statement.class?, Option.some.injEq] at hclass
    dsimp only at hm
    rw [← hclass] at hm
    obtain ⟨node, decorators, hnode, rfl⟩ := exists_method_of_mem_readMembers hm
    exact ⟨outer, cls, node, decorators, d, verb, hstatement, hnode, rfl⟩
  | importing i => simp [Statement.class?] at hclass
  | bindings declared => simp [Statement.class?] at hclass
  | other => simp [Statement.class?] at hclass

/-- An endpoint brings a symbol in: it requires the symbol, which stands once on the line of the
controller's client that imports shared types. -/
structure BringsIn (x : Extractor) (c : Controller) (e : Endpoint) (symbol : Text) : Prop where
  required : symbol ∈ e.imports
  once : (Client.typeImports (x.extract c)).count symbol = 1
  line : ∀ file, Client.render x.config c.group (x.extract c) = .ok file →
    ∃ http, Client.HasImports x.config c.group http
      [Client.sharedLine x.config (Client.typeImports (x.extract c))] file.contents

theorem bringsIn {e : Endpoint} (he : e ∈ x.extract c) {symbol : Text} (h : symbol ∈ e.imports) :
    x.BringsIn c e symbol where
  required := h
  once := Client.count_typeImports he h
  line := fun file hfile => by
    have hmem : symbol ∈ Client.typeImports (x.extract c) := by
      rw [← List.count_pos_iff, Client.count_typeImports he h]
      decide
    have himports := Client.hasImports_of_render hfile
    rw [Client.sharedLines, List.isEmpty_eq_false_iff.2 (List.ne_nil_of_mem hmem)] at himports
    exact ⟨_, himports⟩

/-- The imports of an endpoint cover what its method mentions: the symbol of a shared type, mentioned at
any depth, stands in the type that is shown, if this is not the one that says nothing, and the endpoint
brings the symbol in exactly if that is a name and the file names it. So it does unless the mention goes
through a default import. -/
def Covers (x : Extractor) (c : Controller) (f : SourceFile) (node : MethodNode) (e : Endpoint) :
    Prop :=
  ∀ t r, (t, r) ∈ node.shownTypes e → r ≠ .any → ∀ module symbol, PlainModule module →
    x.config.isSharedModule module = true → t.Mentions f.imports module symbol →
    (Text.isName symbol = true → Shows symbol r.expression) ∧
    (x.BringsIn c e symbol ↔
      Text.isName symbol = true ∧ f.Names x.config.isSharedModule symbol) ∧
    (Text.isName symbol = true → (∀ i ∈ f.imports, i.specifier = module →
      i.defaultName ≠ some symbol) → x.BringsIn c e symbol)

/-- Every endpoint of a controller is that of a method in its file, and its imports cover the shared
types that the method mentions. -/
theorem extract_imports {config : Config} {apiPrefix : Text} {shared : Constants}
    (hc : (readFile path statements).controller? config apiPrefix shared = some c) {e : Endpoint}
    (he : e ∈ x.extract c) :
    ∃ outer cls node decorators d verb, .classDecl outer cls ∈ statements ∧
      .method node ∈ cls.members ∧
      e = x.endpoint c (node.read (readFile path statements).imports decorators) d verb ∧
      x.Covers c (readFile path statements) node e := by
  obtain ⟨hsource, outer, cls, node, decorators, d, verb, hcls, hnode, rfl⟩ :=
    exists_method_of_mem_extract hc he
  refine ⟨outer, cls, node, decorators, d, verb, hcls, hnode, rfl, ?_⟩
  intro t r hshown hany module symbol hm hshared hmentions
  have hnamed : symbol ∈ c.source.importedFrom x.config.isSharedModule ↔
      (readFile path statements).Names x.config.isSharedModule symbol := by
    rw [hsource]
    exact SourceFile.mem_importedFrom
  have hbrings (hs : Text.isName symbol = true)
      (h : (readFile path statements).Names x.config.isSharedModule symbol) :
      x.BringsIn c (x.endpoint c
        (node.read (readFile path statements).imports decorators) d verb) symbol := by
    obtain ⟨-, hiff⟩ := shownTypes_stands hshown hm hs hshared hmentions hany
    exact bringsIn he (mem_imports_of_shownTypes hshown (hiff.2 (hnamed.2 h)))
  refine ⟨?_, ⟨?_, fun h => hbrings h.1 h.2⟩, ?_⟩
  · intro hs
    exact (shownTypes_stands hshown hm hs hshared hmentions hany).1
  · intro h
    obtain ⟨havailable, hs⟩ := of_mem_imports h.required
    exact ⟨hs, hnamed.1 havailable⟩
  · intro hs hdefault
    refine hbrings hs ?_
    rcases names_of_mentions hcls hnode (type_mem_of_shownTypes hshown) hmentions hshared with
      h | ⟨i, hi, hspec, hname⟩
    · exact h
    · exact absurd hname (hdefault i hi hspec)

/-- A controller with an aliased import, a namespace and a default import of shared types:
`list(@Body() filter: t.Filter | undefined): Promise<Array<Member>>` and `owner(): Promise<Owner>`. -/
def teamStatements : List Statement :=
  let types := "'@ai-nx-starter/types'".toList
  [ .importing { specifier := types, named := [("User".toList, some "Member".toList)] },
    .importing { specifier := types, namespaceName := some "t".toList },
    .importing { specifier := types, defaultName := some "Owner".toList },
    .classDecl [] {
      name := ⟨"TeamController".toList, List.all_eq_true.1 (by decide)⟩
      decorators := [{ callee := "Controller".toList }]
      members := [
        .decorator { callee := "Post".toList },
        .method {
          name := "list".toList
          parameters := [{
            decorators := [{ callee := "Body".toList }]
            pattern := "filter".toList
            type := some [.qualified "t".toList "Filter".toList "t.Filter".toList,
              .plain " | undefined".toList] }]
          returnType := some [.name "Promise".toList, .plain ['<'], .name "Array".toList,
            .plain ['<'], .name "Member".toList, .plain ">>".toList] },
        .decorator { callee := "Get".toList },
        .method {
          name := "owner".toList
          returnType := some [.name "Promise".toList, .plain ['<'], .name "Owner".toList,
            .plain ['>']] }] }]

def teamExtractor : Extractor := { config := {}, apiPrefix := [] }

def teamController : Option Controller :=
  (readFile "team.controller.ts".toList teamStatements).controller? {} [] []

theorem extract_imports_team : ∃ c e, teamController = some c ∧ e ∈ teamExtractor.extract c ∧
    ∃ outer cls node decorators d verb, .classDecl outer cls ∈ teamStatements ∧
      .method node ∈ cls.members ∧
      e = teamExtractor.endpoint c (node.read
        (readFile "team.controller.ts".toList teamStatements).imports decorators) d verb ∧
      teamExtractor.Covers c (readFile "team.controller.ts".toList teamStatements) node e := by
  have hsome : teamController.isSome = true := by decide +kernel
  have hne : teamExtractor.extract (teamController.get hsome) ≠ [] := by
    decide +kernel +revert
  have hc := (Option.some_get hsome).symm
  have he := List.head_mem hne
  exact ⟨_, _, hc, he, extract_imports hc he⟩

/-- The symbol of a default import stands in the client type and is not imported. -/
example : (teamController.map fun c => (teamExtractor.extract c).map fun e =>
    (e.returnType.expression, e.imports)) = some [
      ("User[]".toList, ["User".toList, "Filter".toList]), ("Owner".toList, [])] := by
  decide +kernel

end Extractor

end NestClient
