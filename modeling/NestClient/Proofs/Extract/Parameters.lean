import NestClient.Extract.Endpoints

/-! From the declared parameters of a method to those of its endpoint: what sets one aside, and which
names the client's method takes. -/

namespace NestClient

/-! ## Classification -/

/-- A parameter for which there is a reason is ignored; one that is internal is known by its key or by
its own name. -/
theorem classify_of_reason {p : ParameterDecl} {keys : List Text} {cs : Constants}
    {reason : IgnoreReason} (h : (classify p keys cs).reason = some reason) :
    (classify p keys cs).role = .ignored ∧
      (reason = .internalKey →
        ∃ key, (classify p keys cs).key = some key ∧ (key ∈ keys ∨ p.name ∈ keys)) := by
  unfold classify at h ⊢
  dsimp only at h ⊢
  split at h
  · exact ⟨rfl, fun hr => by rw [hr] at h; simp at h⟩
  · exact ⟨rfl, fun hr => by rw [hr] at h; simp at h⟩
  · split at h
    next hname =>
      rw [if_pos hname]
      exact ⟨rfl, fun hr => by rw [hr] at h; simp at h⟩
    next hname =>
    rw [if_neg hname]
    split at h
    next hpath =>
      rw [if_pos hpath]
      split at h
      next hkeys =>
        rw [if_pos hkeys]
        rw [Bool.or_eq_true, List.contains_iff_mem, List.contains_iff_mem] at hkeys
        exact ⟨rfl, fun _ => ⟨_, rfl, hkeys⟩⟩
      next => simp at h
    next => simp at h

/-! ## Binding -/

section Binding

variable (verb : Verb) (keys : List Text) (cs : Constants) (hasBody : Bool)

/-- What `bindParameters` makes of one parameter. -/
def bindParameter (p : ParameterDecl) : BoundParameter :=
  ⟨p, classify p keys cs,
    if (classify p keys cs).role = .body then droppedBody? verb hasBody else none⟩

theorem bindParameters_cons (p : ParameterDecl) (ps : List ParameterDecl) :
    bindParameters verb keys cs hasBody (p :: ps) = bindParameter verb keys cs hasBody p ::
      bindParameters verb keys cs (hasBody || (bindParameter verb keys cs hasBody p).role = .body) ps :=
  rfl

theorem declaration_bindParameters (ps : List ParameterDecl) :
    (bindParameters verb keys cs hasBody ps).map (·.declaration) = ps := by
  induction ps generalizing hasBody with
  | nil => rfl
  | cons p ps ih =>
    rw [bindParameters_cons, List.map_cons, ih]
    rfl

end Binding

/-- Every declared parameter is bound as it is classified, the dropping of bodies apart. -/
theorem exists_mem_bindParameters (verb : Verb) (keys : List Text) (cs : Constants) (hasBody : Bool)
    {ps : List ParameterDecl} {p : ParameterDecl} (hp : p ∈ ps) :
    ∃ b ∈ bindParameters verb keys cs hasBody ps,
      b.declaration = p ∧ b.classification = classify p keys cs := by
  induction ps generalizing hasBody with
  | nil => simp at hp
  | cons q rest ih =>
    rw [bindParameters]
    rcases List.mem_cons.1 hp with rfl | hp
    · exact ⟨_, List.mem_cons_self, rfl, rfl⟩
    · obtain ⟨b, hb, h⟩ := ih _ hp
      exact ⟨b, List.mem_cons_of_mem _ hb, h⟩

/-- The parameter in a place of the list is bound to what stands in that place. -/
theorem bound_of_mem_zip {verb : Verb} {keys : List Text} {cs : Constants} {hasBody : Bool} {α : Type}
    {f : BoundParameter → α} {ps : List ParameterDecl} {p : ParameterDecl} {q : α}
    (h : (p, q) ∈ ps.zip ((bindParameters verb keys cs hasBody ps).map f)) :
    ∃ b, q = f b ∧ b.declaration = p ∧ b.classification = classify p keys cs := by
  induction ps generalizing hasBody with
  | nil => simp at h
  | cons first ps ih =>
    rw [bindParameters_cons, List.map_cons, List.zip_cons_cons, List.mem_cons] at h
    rcases h with heq | h
    · obtain ⟨rfl, rfl⟩ := Prod.mk.inj heq
      exact ⟨_, rfl, rfl, rfl⟩
    · exact ih h

theorem classification_of_mem_bindParameters {verb : Verb} {keys : List Text} {cs : Constants}
    {hasBody : Bool} {ps : List ParameterDecl} {b : BoundParameter}
    (h : b ∈ bindParameters verb keys cs hasBody ps) :
    b.classification = classify b.declaration keys cs := by
  induction ps generalizing hasBody with
  | nil => simp [bindParameters] at h
  | cons p ps ih =>
    rw [bindParameters_cons] at h
    rcases List.mem_cons.1 h with rfl | h
    · rfl
    · exact ih h

theorem BoundParameter.role_of_ignored {b : BoundParameter} (h : b.classification.role = .ignored) :
    b.role = .ignored := by
  unfold BoundParameter.role
  split
  · rfl
  · exact h

/-- A role that is left is the one that the parameter was classified by. -/
theorem BoundParameter.role_of_ne_ignored {b : BoundParameter} (h : b.role ≠ .ignored) :
    b.classification.role = b.role := by
  unfold BoundParameter.role at h ⊢
  split
  next hdropped => exact absurd (if_pos hdropped) h
  next => rfl

/-! ## Endpoints -/

/-- The names that the types of an endpoint need: those of its return type, then those of the parameters
that are not ignored. -/
def Endpoint.neededImports (e : Endpoint) : List Text :=
  e.returnType.imports ++ (e.parameters.filter (·.role ≠ .ignored)).flatMap (·.type.imports)

theorem Endpoint.withRole_eq (e : Endpoint) {role : Role} (hrole : role ≠ .ignored) :
    e.withRole role = e.clientParameters.filter (·.role = role) := by
  rw [withRole, clientParameters, List.filter_filter]
  refine List.filter_congr fun p _ => ?_
  by_cases h : p.role = role
  · simp [h, hrole]
  · simp [h]

theorem Endpoint.mem_clientParameters (e : Endpoint) {role : Role} (hrole : role ≠ .ignored)
    {p : Parameter} (h : p ∈ e.withRole role) : p ∈ e.clientParameters := by
  rw [e.withRole_eq hrole] at h
  exact (List.mem_filter.1 h).1

namespace Extractor

variable (x : Extractor) (c : Controller)

theorem mem_extract {e : Endpoint} : e ∈ x.extract c ↔
    ∃ m ∈ c.declaration.methods, ∃ d verb, m.verb? = some (d, verb) ∧ e = x.endpoint c m d verb := by
  rw [extract, List.mem_filterMap]
  constructor
  · rintro ⟨m, hm, he⟩
    obtain ⟨⟨d, verb⟩, hverb, rfl⟩ := Option.map_eq_some_iff.1 he
    exact ⟨m, hm, d, verb, hverb, rfl⟩
  · rintro ⟨m, hm, d, verb, hverb, rfl⟩
    exact ⟨m, hm, by rw [hverb]; rfl⟩

theorem imports_endpoint (m : MethodDecl) (d : Decorator) (verb : Verb) :
    (x.endpoint c m d verb).imports = Text.distinct (x.endpoint c m d verb).neededImports :=
  rfl

/-- The client's method takes the parameters that are not ignored. -/
theorem clientParameters_endpoint (m : MethodDecl) (d : Decorator) (verb : Verb) :
    (x.endpoint c m d verb).clientParameters
      = ((x.boundParameters c m verb).filter (·.role ≠ .ignored)).map
        (·.toParameter x.config.resolver (c.source.importedFrom x.config.isSharedModule)) := by
  rw [Endpoint.clientParameters, endpoint, List.filter_map]
  rfl

theorem names_endpoint (m : MethodDecl) (d : Decorator) (verb : Verb) :
    (x.endpoint c m d verb).clientParameters.map (·.name)
      = ((x.boundParameters c m verb).filter (·.role ≠ .ignored)).map (·.declaration.name) := by
  rw [clientParameters_endpoint, List.map_map]
  rfl

end Extractor

end NestClient
