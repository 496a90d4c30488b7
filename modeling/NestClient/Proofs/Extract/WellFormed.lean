import Mathlib.Data.List.Forall2
import NestClient.Proofs.Extract.Imports
import NestClient.Proofs.Extract.Parameters

/-! The endpoints of a controller are those of its methods with a verb, in order, and each of them
describes its method: the verb, the parameters with their one body, and the imports. -/

namespace NestClient

/-! ## Verbs -/

/-- The names that bind a method to a verb. -/
def verbDecorators : List Text :=
  ["Get".toList, "Post".toList, "Put".toList, "Patch".toList, "Delete".toList]

namespace Verb

/-- The name of the decorator for the verb. -/
def decorator : Verb → Text
  | get => "Get".toList
  | post => "Post".toList
  | put => "Put".toList
  | patch => "Patch".toList
  | delete => "Delete".toList

theorem ofDecorator?_eq_some_iff {name : Text} {verb : Verb} :
    ofDecorator? name = some verb ↔ name = verb.decorator := by
  constructor
  · intro h
    unfold ofDecorator? at h
    split_ifs at h with hget hpost hput hpatch hdelete <;> obtain rfl := Option.some.inj h
    · exact hget
    · exact hpost
    · exact hput
    · exact hpatch
    · exact hdelete
  · rintro rfl
    cases verb <;> rfl

theorem ofDecorator?_eq_none_iff {name : Text} : ofDecorator? name = none ↔ name ∉ verbDecorators := by
  have hdecorators : verbDecorators = [get, post, put, patch, delete].map decorator := rfl
  rw [Option.eq_none_iff_forall_ne_some, hdecorators, List.mem_map, not_exists]
  refine forall_congr' fun verb => ?_
  rw [ne_eq, ofDecorator?_eq_some_iff, eq_comm]
  cases verb <;> simp

end Verb

/-! ## What an endpoint says of its method -/

/-- The parameter is bound as a body: `Body` is the first of its binding decorators, and it is declared
by a name. -/
def ParameterDecl.BindsBody (p : ParameterDecl) : Prop :=
  (∃ d, firstBinding p.decorators = some (d, .request .body)) ∧ Text.isNameLine p.name = true

def MethodDecl.hasVerb (m : MethodDecl) : Bool :=
  m.decorators.any fun d => verbDecorators.contains d.name

/-- The endpoint describes a method of a file in which the symbols are available. Its one body is the first
parameter bound as one, and its imports are the needed ones as they come first. -/
structure Endpoint.Describes (e : Endpoint) (m : MethodDecl) (available : List Text) : Prop where
  methodName : e.methodName = m.name
  verb : ∃ before d after, m.decorators = before ++ d :: after ∧
    d.name = e.verb.decorator ∧ ∀ d' ∈ before, d'.name ∉ verbDecorators
  names : e.parameters.map (·.name) = m.parameters.map (·.name)
  body : ∀ i p q, m.parameters[i]? = some p → e.parameters[i]? = some q →
    (q.role = .body ↔ e.verb ≠ .get ∧ p.BindsBody ∧ ∀ p' ∈ m.parameters.take i, ¬p'.BindsBody)
  one_body : (e.parameters.filter (·.role = .body)).length ≤ 1
  get_body : e.verb = .get → ∀ q ∈ e.parameters, q.role ≠ .body
  imports_nodup : e.imports.Nodup
  imports_available : e.imports ⊆ available
  mem_imports : ∀ symbol, symbol ∈ e.imports ↔ symbol ∈ e.neededImports
  imports_order : e.imports.Pairwise fun s t =>
    e.neededImports.idxOf s < e.neededImports.idxOf t

/-! ## Bodies -/

theorem classify_role_body (p : ParameterDecl) (keys : List Text) (cs : Constants) :
    (classify p keys cs).role = .body ↔ p.BindsBody := by
  unfold classify ParameterDecl.BindsBody
  dsimp only
  split
  next hbinding => simp [hbinding]
  next hbinding => simp [hbinding]
  next d role hbinding =>
    rw [hbinding]
    by_cases hname : Text.isNameLine p.name = true
    · by_cases hpath : role = .path
      · subst hpath
        simp only [hname, Bool.not_true, Bool.false_eq_true, if_false, if_true]
        split <;> simp
      · simp [hname, hpath]
    · simp [hname]

/-- The body is bound as one, by a request that has a body, where none is there yet. -/
theorem role_bindParameter {verb : Verb} {keys : List Text} {cs : Constants} {hasBody : Bool}
    {p : ParameterDecl} : (bindParameter verb keys cs hasBody p).role = .body ↔
      verb ≠ .get ∧ hasBody = false ∧ p.BindsBody := by
  rw [bindParameter, BoundParameter.role, ← classify_role_body p keys cs]
  by_cases hrole : (classify p keys cs).role = .body
  · cases verb <;> cases hasBody <;> simp [hrole, droppedBody?]
  · simp [hrole]

/-- The loop's flag is passed on as "no body before this parameter", so the induction is over every
value of it. -/
theorem role_bindParameters {verb : Verb} {keys : List Text} {cs : Constants} {hasBody : Bool}
    {ps : List ParameterDecl} {i : Nat} {p : ParameterDecl} {b : BoundParameter} (hp : ps[i]? = some p)
    (hb : (bindParameters verb keys cs hasBody ps)[i]? = some b) :
    b.role = .body ↔
      verb ≠ .get ∧ hasBody = false ∧ p.BindsBody ∧ ∀ p' ∈ ps.take i, ¬p'.BindsBody := by
  induction ps generalizing hasBody i with
  | nil => simp at hp
  | cons first ps ih =>
    rw [bindParameters_cons] at hb
    cases i with
    | zero =>
      simp only [List.getElem?_cons_zero, Option.some.injEq] at hp hb
      rw [← hb, role_bindParameter, hp]
      simp
    | succ i =>
      simp only [List.getElem?_cons_succ] at hp hb
      rw [ih hp hb, Bool.or_eq_false_iff, decide_eq_false_iff_not, role_bindParameter,
        List.take_succ_cons, List.forall_mem_cons]
      tauto

/-- A body that is a pattern does not count: `(@Body() {id}, @Body() user, @Body() other)`. -/
example :
    let body : List Decorator := [{ name := "Body".toList }]
    (bindParameters .post [] [] false [⟨"{id}".toList, body, [], [], false, false⟩,
      ⟨"user".toList, body, [], [], false, false⟩, ⟨"other".toList, body, [], [], false, false⟩]).map
      (·.role) = [.ignored, .body, .ignored] := by
  decide

theorem bodies_eq_nil {verb : Verb} {hasBody : Bool} (h : verb = .get ∨ hasBody = true)
    (keys : List Text) (cs : Constants) (ps : List ParameterDecl) :
    (bindParameters verb keys cs hasBody ps).filter (·.role = .body) = [] := by
  refine List.filter_eq_nil_iff.2 fun b hb => ?_
  obtain ⟨i, hb⟩ := List.mem_iff_getElem?.1 hb
  obtain ⟨p, hp⟩ : ∃ p, ps[i]? = some p := by
    rw [← declaration_bindParameters verb keys cs hasBody ps, List.getElem?_map, hb]
    exact ⟨_, rfl⟩
  rw [decide_eq_true_iff, role_bindParameters hp hb]
  rintro ⟨hverb, hnone, -⟩
  rcases h with rfl | rfl
  · exact hverb rfl
  · cases hnone

theorem length_bodies (verb : Verb) (keys : List Text) (cs : Constants) (hasBody : Bool)
    (ps : List ParameterDecl) :
    ((bindParameters verb keys cs hasBody ps).filter (·.role = .body)).length ≤ 1 := by
  induction ps generalizing hasBody with
  | nil => simp [bindParameters]
  | cons p ps ih =>
    rw [bindParameters_cons, List.filter_cons]
    generalize bindParameter verb keys cs hasBody p = b
    by_cases hbody : b.role = .body
    · rw [if_pos (decide_eq_true hbody), decide_eq_true hbody, Bool.or_true,
        bodies_eq_nil (.inr rfl)]
      exact le_rfl
    · rw [if_neg (by simpa using hbody)]
      exact ih _

/-! ## Endpoints -/

theorem MethodDecl.isSome_verb? (m : MethodDecl) : m.verb?.isSome = m.hasVerb := by
  rw [verb?, hasVerb, List.isSome_findSome?]
  refine congrArg (m.decorators.any ·) (funext fun d => ?_)
  rw [Option.isSome_map, Bool.eq_iff_iff, List.contains_iff_mem, Option.isSome_iff_ne_none, ne_eq,
    Verb.ofDecorator?_eq_none_iff, not_not]

theorem MethodDecl.verb?_eq_some {m : MethodDecl} {d : Decorator} {verb : Verb}
    (h : m.verb? = some (d, verb)) :
    ∃ before after, m.decorators = before ++ d :: after ∧ d.name = verb.decorator ∧
      ∀ d' ∈ before, d'.name ∉ verbDecorators := by
  obtain ⟨before, d', after, hsplit, hd, hbefore⟩ := List.findSome?_eq_some_iff.1 h
  obtain ⟨verb', hverb, heq⟩ := Option.map_eq_some_iff.1 hd
  obtain ⟨rfl, rfl⟩ := Prod.mk.inj heq
  exact ⟨before, after, hsplit, Verb.ofDecorator?_eq_some_iff.1 hverb,
    fun d' hd' => Verb.ofDecorator?_eq_none_iff.1 (Option.map_eq_none_iff.1 (hbefore d' hd'))⟩

theorem forall₂_filterMap {α β : Type} {r : α → β → Prop} {f : α → Option β} {items : List α}
    (h : ∀ a ∈ items, ∀ b, f a = some b → r a b) :
    List.Forall₂ r (items.filter fun a => (f a).isSome) (items.filterMap f) := by
  induction items with
  | nil => exact .nil
  | cons a items ih =>
    have hrest := ih fun b hb => h b (List.mem_cons_of_mem _ hb)
    cases hf : f a with
    | none => simpa [hf] using hrest
    | some b => simpa [hf] using List.Forall₂.cons (h a List.mem_cons_self b hf) hrest

namespace Extractor

variable (x : Extractor) (c : Controller)

theorem withRole_body (m : MethodDecl) (d : Decorator) (verb : Verb) :
    (x.endpoint c m d verb).withRole .body = ((x.boundParameters c m verb).filter (·.role = .body)).map
      (·.toParameter x.config.resolver (c.source.importedFrom x.config.isSharedModule)) := by
  rw [Endpoint.withRole, endpoint, List.filter_map]
  rfl

theorem length_withRole_body (m : MethodDecl) (d : Decorator) (verb : Verb) :
    ((x.endpoint c m d verb).withRole .body).length ≤ 1 := by
  rw [withRole_body, List.length_map]
  exact length_bodies _ _ _ _ _

theorem describes_endpoint {m : MethodDecl} {d : Decorator} {verb : Verb}
    (h : m.verb? = some (d, verb)) : (x.endpoint c m d verb).Describes m
      (c.source.importedFrom x.config.isSharedModule) := by
  have hroles : ∀ i p q, m.parameters[i]? = some p →
      (x.endpoint c m d verb).parameters[i]? = some q →
      (q.role = .body ↔ verb ≠ .get ∧ p.BindsBody ∧ ∀ p' ∈ m.parameters.take i, ¬p'.BindsBody) := by
    intro i p q hp hq
    rw [endpoint, List.getElem?_map, Option.map_eq_some_iff] at hq
    obtain ⟨b, hb, rfl⟩ := hq
    rw [BoundParameter.toParameter, role_bindParameters hp hb]
    simp
  exact {
    methodName := rfl
    verb := by
      obtain ⟨before, after, hsplit, hverb, hbefore⟩ := MethodDecl.verb?_eq_some h
      exact ⟨before, d, after, hsplit, hverb, hbefore⟩
    names := by
      rw [endpoint, List.map_map, ← declaration_bindParameters verb x.config.internalPathKeys
        (c.source.knownConstants x.constants) false m.parameters, List.map_map]
      rfl
    body := hroles
    one_body := x.length_withRole_body c m d verb
    get_body := by
      intro hget
      obtain rfl : verb = .get := hget
      have hnone : (x.endpoint c m d .get).withRole .body = [] := by
        rw [withRole_body, boundParameters, bodies_eq_nil (.inl rfl), List.map_nil]
      exact fun q hq hrole => List.ne_nil_of_mem (Endpoint.mem_withRole.2 ⟨hq, hrole⟩) hnone
    imports_nodup := by
      rw [imports_endpoint]
      exact Text.nodup_distinct _
    imports_available := fun symbol hsymbol => (of_mem_imports hsymbol).1
    mem_imports := fun symbol => by rw [imports_endpoint, Text.mem_distinct]
    imports_order := by
      rw [imports_endpoint]
      exact Text.pairwise_distinct _ }

/-- The endpoints of a controller are one for each of its methods with a verb, in their order, and
describe them. -/
theorem extract_describes : List.Forall₂
    (fun m e => e.Describes m (c.source.importedFrom x.config.isSharedModule))
    (c.declaration.methods.filter (·.hasVerb)) (x.extract c) := by
  have hmethods : (fun m : MethodDecl => m.hasVerb) = fun m =>
      (m.verb?.map fun found => x.endpoint c m found.1 found.2).isSome := by
    funext m
    rw [Option.isSome_map, m.isSome_verb?]
  rw [extract, hmethods]
  refine forall₂_filterMap fun m _ e he => ?_
  obtain ⟨⟨d, verb⟩, hverb, rfl⟩ := Option.map_eq_some_iff.1 he
  exact x.describes_endpoint c hverb

end Extractor

end NestClient
