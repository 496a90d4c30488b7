import NestClient.Client.Source
import NestClient.Proofs.Extract.Parameters
import NestClient.Proofs.Related

/-! Parameters that only the server sees leave no trace in the client: a controller in which they are
deleted, or declared with other types and defaults, has the same client.

* `Redacted`: what becomes of a parameter list.
* `filter_bindParameters`: the loop over the parameters does not see the difference.
* `Endpoint.SameClient`: what a client is made of, and `Client.render_congr` that nothing else is.
* `Extractor.render_redacted`: the client of a redacted controller. -/

namespace NestClient

/-! ## Redaction -/

/-- Parameters with the roles that they have in an endpoint, and what is left of them: some of the ignored
ones are deleted, others are declared anew, and all else stays. -/
inductive Redacted : List (ParameterDecl × Role) → List ParameterDecl → Prop where
  | nil : Redacted [] []
  | kept (p : ParameterDecl) (role : Role) {ps : List (ParameterDecl × Role)}
      {left : List ParameterDecl} (rest : Redacted ps left) : Redacted ((p, role) :: ps) (p :: left)
  | deleted (p : ParameterDecl) {ps : List (ParameterDecl × Role)} {left : List ParameterDecl}
      (rest : Redacted ps left) : Redacted ((p, .ignored) :: ps) left
  | redeclared (p : ParameterDecl) (type rawType : Text) (question initializer : Bool)
      {ps : List (ParameterDecl × Role)} {left : List ParameterDecl} (rest : Redacted ps left) :
      Redacted ((p, .ignored) :: ps) ({ p with type, rawType, question, initializer } :: left)

namespace Extractor

/-- The method with some of its server-only parameters deleted or declared anew. One without a verb has
no endpoint that could ignore a parameter, and stays. -/
def RedactsMethod (x : Extractor) (c : Controller) (m m' : MethodDecl) : Prop :=
  ∃ left, m' = { m with parameters := left } ∧
    match m.verb? with
    | none => left = m.parameters
    | some (d, verb) =>
      Redacted (m.parameters.zip ((x.endpoint c m d verb).parameters.map (·.role))) left

/-- The controller with its methods redacted. Of its file's model only the classes may differ. -/
structure Redacts (x : Extractor) (c c' : Controller) : Prop where
  group : c'.group = c.group
  declaration : ∃ methods, c'.declaration = { c.declaration with methods } ∧
    List.Forall₂ (x.RedactsMethod c) c.declaration.methods methods
  source : ∃ classes, c'.source = { c.source with classes }

end Extractor

/-! ## The loop over the parameters -/

theorem classify_role_congr {p p' : ParameterDecl} (hname : p'.name = p.name)
    (hdecorators : p'.decorators = p.decorators) (keys : List Text) (cs : Constants) :
    (classify p' keys cs).role = (classify p keys cs).role := by
  unfold classify
  rw [hname, hdecorators]
  dsimp only
  split
  · rfl
  · rfl
  · split
    · rfl
    · split
      · split <;> rfl
      · rfl

theorem role_bindParameter_congr {p p' : ParameterDecl} (hname : p'.name = p.name)
    (hdecorators : p'.decorators = p.decorators) (verb : Verb) (keys : List Text) (cs : Constants)
    (hasBody : Bool) : (bindParameter verb keys cs hasBody p').role
      = (bindParameter verb keys cs hasBody p).role := by
  have hrole := classify_role_congr hname hdecorators keys cs
  rw [bindParameter, bindParameter, BoundParameter.role, BoundParameter.role]
  dsimp only
  rw [hrole]

/-- Whether a body was seen is the loop's only state; an ignored parameter, be it classified so or a body
too many, leaves it as it was. -/
theorem filter_bindParameters {verb : Verb} {keys : List Text} {cs : Constants} {hasBody : Bool}
    {ps left : List ParameterDecl}
    (h : Redacted (ps.zip ((bindParameters verb keys cs hasBody ps).map (·.role))) left) :
    (bindParameters verb keys cs hasBody left).filter (·.role ≠ .ignored)
      = (bindParameters verb keys cs hasBody ps).filter (·.role ≠ .ignored) := by
  induction ps generalizing hasBody left with
  | nil =>
    cases h
    rfl
  | cons p ps ih =>
    rw [bindParameters_cons] at h ⊢
    rw [List.map_cons, List.zip_cons_cons] at h
    generalize hrole : (bindParameter verb keys cs hasBody p).role = role at h ⊢
    cases h with
    | kept _ _ rest =>
      rw [bindParameters_cons, List.filter_cons, List.filter_cons, hrole, ih rest]
    | deleted _ rest =>
      rw [List.filter_cons_of_neg (by simp [hrole]), ← ih rest]
      simp
    | redeclared _ type rawType question initializer rest =>
      have hrole' : (bindParameter verb keys cs hasBody
          { p with type, rawType, question, initializer }).role = .ignored := by
        rw [← hrole]
        exact role_bindParameter_congr (p := p) (by rfl) (by rfl) verb keys cs hasBody
      rw [bindParameters_cons, List.filter_cons_of_neg (by simp [hrole']),
        List.filter_cons_of_neg (by simp [hrole]), hrole', ih rest]

/-! ## What a client is made of -/

/-- The endpoints make the same method of a client. -/
structure Endpoint.SameClient (e e' : Endpoint) : Prop where
  methodName : e'.methodName = e.methodName
  verb : e'.verb = e.verb
  route : e'.route = e.route
  clientParameters : e'.clientParameters = e.clientParameters
  returnType : e'.returnType = e.returnType
  imports : e'.imports = e.imports

namespace Endpoint.SameClient

variable {e e' : Endpoint}

theorem withRole (h : e.SameClient e') {role : Role} (hrole : role ≠ .ignored) :
    e'.withRole role = e.withRole role := by
  rw [withRole_eq e' hrole, withRole_eq e hrole, h.clientParameters]

theorem ofEndpoint (h : e.SameClient e') :
    Client.Method.ofEndpoint e' = Client.Method.ofEndpoint e := by
  have hpath := h.withRole (show Role.path ≠ .ignored by decide)
  have hquery := h.withRole (show Role.query ≠ .ignored by decide)
  have hbody := h.withRole (show Role.body ≠ .ignored by decide)
  have hurl : Client.urlExpression e' = Client.urlExpression e := by
    unfold Client.urlExpression Client.pathNames
    rw [hpath, h.route]
  have hcall : Client.callArguments e' = Client.callArguments e := by
    unfold Client.callArguments Client.requestOptions bodyParameter
    rw [hquery, hbody, h.verb]
  rw [Client.Method.ofEndpoint, Client.Method.ofEndpoint, Client.signature, Client.signature, hurl,
    hcall, hquery, h.methodName, h.verb, h.route, h.clientParameters, h.returnType]

end Endpoint.SameClient

/-- A client is made of its controller's group, and of its endpoints as far as the methods show them. -/
theorem Client.render_congr (config : Config) (g : EndpointGroup) {endpoints endpoints' : List Endpoint}
    (h : List.Forall₂ Endpoint.SameClient endpoints endpoints') :
    render config g endpoints' = render config g endpoints := by
  have hmethods : endpoints'.map Method.ofEndpoint = endpoints.map Method.ofEndpoint :=
    map_eq_of_related h fun _ _ hsame => hsame.ofEndpoint
  have himports : typeImports endpoints' = typeImports endpoints := by
    rw [typeImports, typeImports, flatMap_eq_of_related h fun _ _ hsame => hsame.imports]
  rw [render, render, hmethods, himports]

namespace Extractor

variable {x : Extractor} {c c' : Controller}

/-! ## Redacted controllers -/

theorem Redacts.sameClient_endpoint (h : x.Redacts c c') {m m' : MethodDecl}
    (hm : x.RedactsMethod c m m') {d : Decorator} {verb : Verb} (hverb : m.verb? = some (d, verb)) :
    (x.endpoint c m d verb).SameClient (x.endpoint c' m' d verb) := by
  obtain ⟨left, rfl, hleft⟩ := hm
  obtain ⟨classes, hsource⟩ := h.source
  rw [hverb] at hleft
  have hconstants : c'.source.knownConstants x.constants = c.source.knownConstants x.constants := by
    rw [hsource]
    rfl
  have havailable : c'.source.importedFrom x.config.isSharedModule
      = c.source.importedFrom x.config.isSharedModule := by
    rw [hsource]
    rfl
  have hclient : (x.endpoint c' { m with parameters := left } d verb).clientParameters
      = (x.endpoint c m d verb).clientParameters := by
    rw [clientParameters_endpoint, clientParameters_endpoint, boundParameters, boundParameters,
      hconstants, havailable, filter_bindParameters]
    have hroles : (x.endpoint c m d verb).parameters.map (·.role)
        = (x.boundParameters c m verb).map (·.role) := by
      rw [endpoint, List.map_map]
      rfl
    rw [← boundParameters, ← hroles]
    exact hleft
  have hreturn : (x.endpoint c' { m with parameters := left } d verb).returnType
      = (x.endpoint c m d verb).returnType := by
    rw [endpoint, endpoint, havailable]
  exact {
    methodName := rfl
    verb := rfl
    route := by rw [endpoint, endpoint, hconstants, h.group]
    clientParameters := hclient
    returnType := hreturn
    imports := by
      rw [imports_endpoint, imports_endpoint, Endpoint.neededImports, Endpoint.neededImports, hreturn,
        ← Endpoint.clientParameters, ← Endpoint.clientParameters, hclient] }

theorem RedactsMethod.verb? {m m' : MethodDecl} (h : x.RedactsMethod c m m') : m'.verb? = m.verb? := by
  obtain ⟨left, rfl, -⟩ := h
  rfl

theorem Redacts.forall₂_extract (h : x.Redacts c c') :
    List.Forall₂ Endpoint.SameClient (x.extract c) (x.extract c') := by
  obtain ⟨methods, hdeclaration, hmethods⟩ := h.declaration
  rw [extract, extract, hdeclaration]
  dsimp only
  clear hdeclaration
  generalize c.declaration.methods = declared at hmethods ⊢
  induction hmethods with
  | nil => exact .nil
  | @cons m m' _ _ hm _ ih =>
    cases hverb : m.verb? with
    | none => simpa [hverb, hm.verb?] using ih
    | some found =>
      have hsame := h.sameClient_endpoint hm (show m.verb? = some (found.1, found.2) from hverb)
      simpa [hverb, hm.verb?] using List.Forall₂.cons hsame ih

/-- Parameters that the extractor ignores can be deleted or declared anew: each endpoint keeps its route,
client parameters, return type and imports, the client of the controller keeps its contents, and no ignored
parameter is one of a client method. -/
theorem render_redacted (h : x.Redacts c c') :
    List.Forall₂ Endpoint.SameClient (x.extract c) (x.extract c') ∧
    (∀ config, Client.render config c'.group (x.extract c')
      = Client.render config c.group (x.extract c)) ∧
    ∀ e ∈ x.extract c ++ x.extract c', ∀ p ∈ e.parameters, p.role = .ignored → p ∉ e.clientParameters := by
  refine ⟨h.forall₂_extract, fun config => ?_, fun e _ p _ hrole hp => ?_⟩
  · rw [h.group]
    exact Client.render_congr config c.group h.forall₂_extract
  · have hkept : p.role ≠ .ignored := by simpa using (List.mem_filter.1 hp).2
    exact hkept hrole

/-- `@Put(':id') update(@Req() req: Request, @Param('id') id: string, @Body() team: Team, @Body() other:
Other)` without `req`, and with another type for `other`. -/
theorem render_redacted_update :
    let bound (decorator name type : String) : ParameterDecl :=
      { name := name.toList, decorators := [{ name := decorator.toList }], type := type.toList }
    let req := bound "Req" "req" "Request"
    let id := bound "Param" "id" "string"
    let team := bound "Body" "team" "Team"
    let other := bound "Body" "other" "Other"
    let route : Argument := { kind := .string, value := some ":id".toList }
    let m : MethodDecl := {
      name := "update".toList
      decorators := [{ name := "Put".toList, arguments := [route] }]
      parameters := [req, id, team, other] }
    let c : Controller := {
      group := { name := "AController".toList, basePath := "a".toList, sourceFile := "a.ts".toList }
      declaration := { name := "AController".toList, methods := [m] }
      source := { path := "a.ts".toList } }
    let secret := { other with type := "Secret | undefined".toList, question := true }
    let c' := { c with declaration := { c.declaration with
      methods := [{ m with parameters := [id, team, secret] }] } }
    let x : Extractor := { config := {}, apiPrefix := [] }
    x.Redacts c c' ∧ Client.render {} c'.group (x.extract c') = Client.render {} c.group (x.extract c) := by
  intro bound req id team other route m c secret c' x
  have hleft : Redacted [(req, .ignored), (id, .path), (team, .body), (other, .ignored)]
      [id, team, secret] :=
    .deleted req (.kept id _ (.kept team _ (.redeclared other _ _ _ _ .nil)))
  have h : x.Redacts c c' := {
    group := rfl
    declaration := ⟨[{ m with parameters := [id, team, secret] }], rfl, .cons ⟨_, rfl, hleft⟩ .nil⟩
    source := ⟨[], rfl⟩ }
  exact ⟨h, (render_redacted h).2.1 {}⟩

end Extractor

end NestClient
