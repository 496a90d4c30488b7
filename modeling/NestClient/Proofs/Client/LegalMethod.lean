import NestClient.Proofs.Client.Hygiene
import NestClient.Proofs.Client.WireKey

/-! The parts of a client method fit together: what its signature declares, what its body uses, what it
passes to the request, and what the file imports for it.

* `declared_presences`: how the signature writes the parameters.
* `uses_methodCode`: the names that the body of a method takes from its parameters.
* `passesBody`: the body of the request is one argument of the call.
* `passesParams_iff`, `declaresParams_iff`: when there is a collection of query parameters.
* `legalMethod`: all of this for a method, and for the file the import that it depends on. -/

namespace NestClient.Client

/-! ## The signature -/

/-- How the signature says that a parameter may be left out. -/
inductive Presence where
  | required
  /-- The type has `undefined` for a member, and the parameter stands before a required one. -/
  | orUndefined
  | question
  deriving DecidableEq, Repr

def Presence.declare (p : Parameter) : Presence → Text
  | required => p.name ++ ": ".toList ++ p.type.expression
  | orUndefined => p.name ++ ": ".toList ++ p.type.expression ++ " | undefined".toList
  | question => p.name ++ "?: ".toList ++ p.type.expression

/-- A signature that declares parameters in order, each according to whether it may be left out; behind a
question mark there are only question marks. -/
structure DeclaresInOrder (ps : List Parameter) (signature : Text) (declared : List (Parameter × Presence)) :
    Prop where
  parameters : declared.map (·.1) = ps
  text : signature = Text.join ", ".toList (declared.map fun d => d.2.declare d.1)
  optional : ∀ d ∈ declared, d.1.optional = true ↔ d.2 ≠ .required
  question : declared.Pairwise fun a b => a.2 = .question → b.2 = .question

/-- The parameters, each with the way it is declared before the later ones. -/
def presences : List Parameter → List (Parameter × Presence)
  | [] => []
  | p :: later =>
    let presence : Presence :=
      if !p.optional then .required
      else if later.any (!·.optional) then .orUndefined
      else .question
    (p, presence) :: presences later

theorem map_presences (ps : List Parameter) : (presences ps).map (·.1) = ps := by
  induction ps with
  | nil => rfl
  | cons p later ih => rw [presences, List.map_cons, ih]

theorem declareParameters_eq (ps : List Parameter) :
    declareParameters ps = (presences ps).map fun d => d.2.declare d.1 := by
  induction ps with
  | nil => rfl
  | cons p later ih =>
    rw [declareParameters, presences, List.map_cons, ih]
    dsimp only
    split
    · rfl
    · split <;> rfl

theorem optional_presences (ps : List Parameter) :
    ∀ d ∈ presences ps, d.1.optional = true ↔ d.2 ≠ .required := by
  induction ps with
  | nil => simp [presences]
  | cons p later ih =>
    refine List.forall_mem_cons.2 ⟨?_, ih⟩
    dsimp only
    split
    next hp => simpa using hp
    next hp =>
      rw [Bool.not_eq_true', Bool.not_eq_false] at hp
      split <;> simp [hp]

/-- Where nothing required follows, every parameter has its question mark. -/
theorem presences_of_optional {ps : List Parameter} (h : ∀ p ∈ ps, p.optional = true) :
    ∀ d ∈ presences ps, d.2 = .question := by
  induction ps with
  | nil => simp [presences]
  | cons p later ih =>
    rw [List.forall_mem_cons] at h
    refine List.forall_mem_cons.2 ⟨?_, ih h.2⟩
    have hlater : (later.any fun q => !q.optional) = false := by
      rw [List.any_eq_false]
      intro q hq
      simp [h.2 q hq]
    simp [h.1, hlater]

theorem pairwise_presences (ps : List Parameter) :
    (presences ps).Pairwise fun a b => a.2 = .question → b.2 = .question := by
  induction ps with
  | nil => exact .nil
  | cons p later ih =>
    refine List.pairwise_cons.2 ⟨fun d hd hquestion => ?_, ih⟩
    dsimp only at hquestion
    split at hquestion
    · cases hquestion
    · split at hquestion
      · cases hquestion
      next hlater =>
        refine presences_of_optional (fun q hq => ?_) d hd
        rw [Bool.not_eq_true, List.any_eq_false] at hlater
        simpa using hlater q hq

theorem declared_presences (ps : List Parameter) :
    DeclaresInOrder ps (Text.join ", ".toList (declareParameters ps)) (presences ps) :=
  ⟨map_presences ps, by rw [declareParameters_eq], optional_presences ps, pairwise_presences ps⟩

/-! ## Uses of parameters -/

def Fragment.usedParameter? : Fragment → Option Text
  | use name .parameter => some name
  | _ => none

def usesIn (code : List Fragment) : List Text := code.filterMap Fragment.usedParameter?

def Statement.uses : Statement → List Text
  | line code => usesIn code
  | function head _ _ inner _ => usesIn head ++ inner.flatMap usesIn

@[simp] theorem usesIn_nil : usesIn [] = [] := rfl

@[simp] theorem usesIn_plain (t : Text) (code : List Fragment) :
    usesIn (.plain t :: code) = usesIn code := rfl

@[simp] theorem usesIn_declare (name : Text) (o : Origin) (code : List Fragment) :
    usesIn (.declare name o :: code) = usesIn code := rfl

@[simp] theorem usesIn_parameter (name : Text) (code : List Fragment) :
    usesIn (.use name .parameter :: code) = name :: usesIn code := rfl

@[simp] theorem usesIn_body (name : Text) (code : List Fragment) :
    usesIn (.use name .body :: code) = usesIn code := rfl

@[simp] theorem usesIn_entry (name : Text) (code : List Fragment) :
    usesIn (.use name .entry :: code) = usesIn code := rfl

@[simp] theorem usesIn_outer (name : Text) (code : List Fragment) :
    usesIn (.use name .outer :: code) = usesIn code := rfl

@[simp] theorem usesIn_append (code more : List Fragment) :
    usesIn (code ++ more) = usesIn code ++ usesIn more := List.filterMap_append

theorem usesIn_joinCode (sep : Text) (parts : List (List Fragment)) :
    usesIn (joinCode sep parts) = parts.flatMap usesIn := by
  induction parts with
  | nil => rfl
  | cons first more ih =>
    cases more with
    | nil => simp [joinCode_singleton]
    | cons second more =>
      rw [joinCode_cons_cons, usesIn_append, usesIn_plain, ih]
      rfl

theorem uses_queryCode (q : QueryEntry) : ∀ n ∈ (queryCode q).flatMap Statement.uses, n = q.name := by
  unfold queryCode
  rcases q.key with _ | _ | ⟨c, key⟩ <;>
    simp [Statement.uses, presenceCode, setCode, -String.reduceToList]

theorem usesIn_bodyCode (p : Parameter) : usesIn (bodyCode p) = [p.name] := by
  unfold bodyCode
  cases p.key <;> simp

theorem usesIn_parameterCode (ps : List Parameter) : (parameterCode ps).flatMap usesIn = [] := by
  induction ps with
  | nil => rfl
  | cons p later ih => simp [parameterCode, ih]

theorem mem_usesIn_urlCode {e : Endpoint} {n : Text} (h : n ∈ usesIn (urlCode e)) :
    ∃ p ∈ e.parameters, p.role = .path ∧ p.name = n := by
  obtain ⟨f, hf, hused⟩ := List.mem_filterMap.1 h
  rcases mem_urlCode hf with ⟨t, rfl⟩ | ⟨p, hp, rfl⟩
  · cases hused
  · obtain ⟨hp, hrole⟩ := Endpoint.mem_withRole.1 hp
    exact ⟨p, hp, hrole, Option.some.inj hused⟩

/-! ## The call -/

def objectCode (members : List (List Fragment)) : List Fragment :=
  .plain "\x7b ".toList :: (joinCode ", ".toList members ++ [.plain " \x7d".toList])

theorem argumentsCode_eq (e : Endpoint) : argumentsCode e = [.use "url".toList .body]
    :: ((if e.verb.takesBody then [bodyArgument e.bodyParameter] else [])
      ++ if (optionsCode e).isEmpty then [] else [objectCode (optionsCode e)]) := rfl

theorem usesIn_objectCode (members : List (List Fragment)) :
    usesIn (objectCode members) = members.flatMap usesIn := by
  rw [objectCode, usesIn_plain, usesIn_append, usesIn_joinCode, usesIn_plain, usesIn_nil,
    List.append_nil]

/-- The body of the request is passed as the second argument, and nothing else of the call uses a
parameter: for a verb that takes a body it is the argument itself, else a member of the options. -/
structure PassesBody (e : Endpoint) (p : Parameter) : Prop where
  once : ∃ argument others, argumentsCode e = [.use "url".toList .body] :: argument :: others ∧
    usesIn argument = [p.name] ∧ ∀ other ∈ others, usesIn other = []
  own : e.verb.takesBody = true → (argumentsCode e)[1]? = some (bodyCode p)
  option : e.verb.takesBody = false → (argumentsCode e)[1]? = some (objectCode (optionsCode e)) ∧
    (.plain "body: ".toList :: bodyCode p) ∈ optionsCode e

theorem optionsCode_eq (e : Endpoint) : optionsCode e
    = (if (e.withRole .query).isEmpty then [] else [[.use "params".toList .body]])
      ++ if e.verb.takesBody then []
        else e.bodyParameter.toList.map fun p => .plain "body: ".toList :: bodyCode p := by
  unfold optionsCode
  rcases e.bodyParameter with _ | p <;> cases e.verb.takesBody <;> cases (e.withRole .query).isEmpty <;>
    rfl

theorem passesBody {e : Endpoint} {p : Parameter} (h : e.bodyParameter = some p) : PassesBody e p := by
  have hquery : (if (e.withRole .query).isEmpty then []
      else [[Fragment.use "params".toList .body]]).flatMap usesIn = [] := by
    split <;> rfl
  have hoptions := optionsCode_eq e
  have harguments := argumentsCode_eq e
  rw [h, Option.toList_some, List.map_singleton] at hoptions
  rw [h] at harguments
  cases hverb : e.verb.takesBody with
  | true =>
    rw [hverb, if_pos rfl, List.append_nil] at hoptions
    rw [hverb, if_pos rfl] at harguments
    refine ⟨⟨bodyCode p, _, harguments, usesIn_bodyCode p, fun other hother => ?_⟩, fun _ => ?_,
      fun hfalse => by cases hfalse.symm.trans hverb⟩
    · split at hother
      · simp at hother
      · rw [List.mem_singleton.1 hother, usesIn_objectCode, hoptions, hquery]
    · rw [harguments]
      rfl
  | false =>
    rw [hverb, if_neg Bool.false_ne_true] at hoptions
    have hmember : (Fragment.plain "body: ".toList :: bodyCode p) ∈ optionsCode e := by
      rw [hoptions]
      exact List.mem_append_right _ List.mem_cons_self
    have hsome : (optionsCode e).isEmpty = false :=
      List.isEmpty_eq_false_iff.2 (List.ne_nil_of_mem hmember)
    rw [hverb, if_neg Bool.false_ne_true, hsome, if_neg Bool.false_ne_true] at harguments
    refine ⟨⟨_, [], harguments, ?_, by simp⟩, fun htrue => ?_, fun _ => ⟨?_, hmember⟩⟩
    · rw [usesIn_objectCode, hoptions, List.flatMap_append, hquery, List.flatMap_singleton,
        List.nil_append, usesIn_plain, usesIn_bodyCode]
    · cases htrue.symm.trans hverb
    · rw [harguments]
      rfl

/-- The collection of query parameters is passed in the options of the request. -/
def PassesParams (e : Endpoint) : Prop :=
  objectCode (optionsCode e) ∈ argumentsCode e ∧ [.use "params".toList .body] ∈ optionsCode e

/-- The body of the method declares a collection of query parameters. -/
def DeclaresParams (e : Endpoint) : Prop :=
  ("params".toList, Origin.body) ∈ methodScope (methodCode e)

theorem passesParams_iff (e : Endpoint) : PassesParams e ↔ e.withRole .query ≠ [] := by
  have hmember : [Fragment.use "params".toList .body] ∈ optionsCode e ↔ e.withRole .query ≠ [] := by
    rw [optionsCode_eq, List.mem_append]
    constructor
    · rintro (h | h)
      · split at h
        · simp at h
        next hsome => simpa using hsome
      · split at h
        · simp at h
        · obtain ⟨p, -, hp⟩ := List.mem_map.1 h
          cases hp
    · intro hsome
      rw [if_neg (by simpa using hsome)]
      exact .inl List.mem_cons_self
  refine ⟨fun h => hmember.1 h.2, fun hsome => ⟨?_, hmember.2 hsome⟩⟩
  have hne : (optionsCode e).isEmpty = false :=
    List.isEmpty_eq_false_iff.2 (List.ne_nil_of_mem (hmember.2 hsome))
  rw [argumentsCode_eq, hne, if_neg Bool.false_ne_true]
  simp

theorem declaresParams_iff (e : Endpoint) : DeclaresParams e ↔ e.withRole .query ≠ [] := by
  have hlist : ∀ n : Text, (n, Origin.body) ∈ methodScope (methodCode e) ↔ n ∈ bodyNames e := by
    intro n
    rw [methodScope_methodCode]
    simp
  rw [DeclaresParams, hlist]
  refine ⟨fun h => ?_, params_mem_bodyNames⟩
  rw [bodyNames] at h
  split at h
  · exact absurd h (by decide)
  next hsome => simpa using hsome

/-! ## The method -/

theorem usesIn_argumentsCode (e : Endpoint) :
    (argumentsCode e).flatMap usesIn = e.bodyParameter.toList.map (·.name) := by
  rw [argumentsCode_eq, optionsCode_eq]
  rcases e.bodyParameter with _ | p <;> cases e.verb.takesBody <;> cases (e.withRole .query).isEmpty <;>
    simp [bodyArgument, usesIn_objectCode, usesIn_bodyCode, -String.reduceToList]

/-- The names of parameters in the code of a method are those that its URL, its query and its call
use. -/
theorem uses_methodCode (e : Endpoint) : (methodCode e).flatMap Statement.uses
    = usesIn (urlCode e) ++ ((e.withRole .query).flatMap fun p =>
        (queryCode ⟨p.name, p.key⟩).flatMap Statement.uses)
      ++ e.bodyParameter.toList.map (·.name) := by
  have hsignature : usesIn (joinCode ", ".toList (parameterCode e.clientParameters)) = [] := by
    rw [usesIn_joinCode, usesIn_parameterCode]
  have harguments : usesIn (joinCode ", ".toList (argumentsCode e))
      = e.bodyParameter.toList.map (·.name) := by
    rw [usesIn_joinCode, usesIn_argumentsCode]
  unfold methodCode
  dsimp only
  rw [List.isEmpty_map, List.flatMap_map]
  split
  next hempty =>
    rw [List.isEmpty_iff.1 hempty]
    simp [Statement.uses, hsignature, harguments, -String.reduceToList]
  next =>
    simp [Statement.uses, hsignature, harguments, List.flatMap_assoc, -String.reduceToList]

/-- A name of the code that stands for a parameter is one that the signature declares. -/
theorem closed_methodCode (e : Endpoint) :
    ∀ n ∈ (methodCode e).flatMap Statement.uses, n ∈ parameterNames e := by
  intro n hn
  rw [uses_methodCode, List.mem_append, List.mem_append] at hn
  rcases hn with (hurl | hquery) | hbody
  · obtain ⟨p, hp, hrole, rfl⟩ := mem_usesIn_urlCode hurl
    exact mem_parameterNames (Endpoint.mem_withRole.2 ⟨hp, hrole⟩) (by decide)
  · obtain ⟨p, hp, hn⟩ := List.mem_flatMap.1 hquery
    rw [uses_queryCode _ n hn]
    exact mem_parameterNames hp (by decide)
  · obtain ⟨p, hp, rfl⟩ := List.mem_map.1 hbody
    exact mem_parameterNames (List.mem_of_mem_head? (Option.mem_toList.1 hp)) (by decide)

/-- The method of an endpoint as its code is printed: a legal signature, and a body that uses and passes
on what the signature and the body itself declare. -/
structure LegalMethod (e : Endpoint) : Prop where
  printed : (methodCode e).flatMap Statement.lines = codeLines (Method.ofEndpoint e)
  signature : ∃ declared,
    DeclaresInOrder (e.parameters.filter (·.role ≠ .ignored)) (Method.ofEndpoint e).signature declared
  closed : ∀ n ∈ (methodCode e).flatMap Statement.uses,
    ∃ p ∈ e.parameters, p.role ≠ .ignored ∧ p.name = n
  url : codeText (urlCode e) = (Method.ofEndpoint e).url ∧
    ∀ n ∈ usesIn (urlCode e), ∃ p ∈ e.parameters, p.role = .path ∧ p.name = n
  query : List.Forall₂ (fun p q => q = ⟨p.name, p.key⟩) (e.parameters.filter (·.role = .query))
    (Method.ofEndpoint e).query
  call : (argumentsCode e).map codeText = (Method.ofEndpoint e).callArguments
  body : ∀ p ∈ e.parameters, p.role = .body → PassesBody e p
  passesParams : PassesParams e ↔ (Method.ofEndpoint e).query ≠ []
  declaresParams : DeclaresParams e ↔ (Method.ofEndpoint e).query ≠ []

theorem legalMethod_of_body {e : Endpoint} (hbody : (e.parameters.filter (·.role = .body)).length ≤ 1) :
    LegalMethod e := by
  have hquery : (Method.ofEndpoint e).query ≠ [] ↔ e.withRole .query ≠ [] := by
    simp [Method.ofEndpoint]
  refine ⟨lines_methodCode e, ⟨_, declared_presences e.clientParameters⟩, fun n hn => ?_,
    ⟨codeText_urlCode e, fun _ => mem_usesIn_urlCode⟩, ?_, codeText_argumentsCode e,
    fun p hp hrole => passesBody (Endpoint.bodyParameter_eq hbody (Endpoint.mem_withRole.2 ⟨hp, hrole⟩)),
    ?_, ?_⟩
  · obtain ⟨p, hp, hname⟩ := List.mem_map.1 (closed_methodCode e n hn)
    obtain ⟨hmem, hrole⟩ := List.mem_filter.1 hp
    exact ⟨p, hmem, of_decide_eq_true hrole, hname⟩
  · rw [Method.ofEndpoint, List.forall₂_map_right_iff]
    exact List.forall₂_same.2 fun p _ => rfl
  · rw [hquery, passesParams_iff]
  · rw [hquery, declaresParams_iff]

/-! ## The file -/

/-- The file imports from the HTTP module of the framework what its methods need: the client, and the
collection of query parameters if one of them declares it, and only then. -/
structure ImportsHttp (config : Config) (g : EndpointGroup) (endpoints : List Endpoint) (contents : Text) :
    Prop where
  params : (∃ e ∈ endpoints, DeclaresParams e) →
    HasImports config g clientAndParamsLine (sharedLines config endpoints) contents
  clientOnly : (∀ e ∈ endpoints, ¬DeclaresParams e) →
    HasImports config g clientOnlyLine (sharedLines config endpoints) contents

theorem importsHttp_of_render {config : Config} {g : EndpointGroup} {endpoints : List Endpoint}
    {file : GeneratedFile} (h : render config g endpoints = .ok file) :
    ImportsHttp config g endpoints file.contents := by
  have himports := hasImports_of_render h
  have hany : ((endpoints.map Method.ofEndpoint).any fun m => !m.query.isEmpty) = true
      ↔ ∃ e ∈ endpoints, DeclaresParams e := by
    simp [declaresParams_iff, Method.ofEndpoint]
  constructor
  · intro hsome
    rwa [if_pos (hany.2 hsome)] at himports
  · intro hnone
    rwa [if_neg fun hsome => ?_] at himports
    obtain ⟨e, he, hdeclares⟩ := hany.1 hsome
    exact hnone e he hdeclares

/-- A request with an optional parameter before a required one, a query and a body that goes into the
options. -/
def removalEndpoint : Endpoint :=
  { methodName := "remove".toList
    verb := .delete
    route := "teams/:id".toList
    parameters := [
      { name := "force".toList, type := ⟨"boolean".toList, []⟩, role := .query,
        key := some "force".toList, optional := true },
      { name := "id".toList, type := ⟨"string".toList, []⟩, role := .path, key := some "id".toList },
      { name := "reason".toList, type := ⟨"string".toList, []⟩, role := .body, optional := true }]
    returnType := ⟨"void".toList, []⟩ }

def removalGroup : EndpointGroup :=
  { name := "TeamController".toList, basePath := "teams".toList, sourceFile := "team.ts".toList }

example : (Method.ofEndpoint removalEndpoint).signature
    = "force: boolean | undefined, id: string, reason?: string".toList := by decide

example : (Method.ofEndpoint removalEndpoint).callArguments
    = ["url".toList, "\x7b params, body: reason \x7d".toList] := by decide

end NestClient.Client
