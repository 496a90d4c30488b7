import NestClient.Generation
import NestClient.Proofs.Extract.WellFormed
import NestClient.Proofs.Related

/-! Decorators that nothing is read from change nothing. Others may be put anywhere among those of classes,
methods and parameters, and any arguments may follow the first one of a decorator.

* `Decorated`: what becomes of a list of decorators.
* `Decorated.findSome?`: a search for the first decorator of a known name finds the same one.
* `Project.analysis_decorated`: a project has the same controllers, endpoints and reports. -/

namespace NestClient

/-! ## Decorators -/

/-- The names that bind a parameter. -/
def bindingDecorators : List Text := ["Param".toList, "Query".toList, "Body".toList, "Session".toList,
  "Req".toList, "Request".toList]

/-- The decorator with more arguments behind its first one. Without arguments it stays without. -/
structure Decorator.Extended (d d' : Decorator) : Prop where
  name : d'.name = d.name
  arguments : ∃ more, d'.arguments = d.arguments ++ more ∧ (d.arguments = [] → more = [])

/-- The decorators with others put between them, none of which has one of these names, and with more
arguments behind those that they have. -/
inductive Decorated (names : List Text) : List Decorator → List Decorator → Prop
  | nil : Decorated names [] []
  | kept {d d' : Decorator} {ds ds' : List Decorator} (hd : d.Extended d') (rest : Decorated names ds ds') :
      Decorated names (d :: ds) (d' :: ds')
  | inserted {d : Decorator} {ds ds' : List Decorator} (hd : d.name ∉ names)
      (rest : Decorated names ds ds') : Decorated names ds (d :: ds')

variable {d d' : Decorator} {ds ds' : List Decorator} {names : List Text}

theorem Decorator.Extended.head? (h : d.Extended d') : d'.arguments.head? = d.arguments.head? := by
  obtain ⟨more, harguments, hnone⟩ := h.arguments
  rw [harguments]
  cases hd : d.arguments with
  | nil => rw [hnone hd, List.append_nil]
  | cons first rest => rfl

theorem Decorator.Extended.routeArgument (h : d.Extended d') (apiPrefix prefixConstant : Text)
    (cs : Constants) : NestClient.routeArgument (some d') apiPrefix prefixConstant cs
      = NestClient.routeArgument (some d) apiPrefix prefixConstant cs := by
  unfold NestClient.routeArgument
  rw [Option.bind_some, Option.bind_some, h.head?]

theorem Decorator.Extended.bindingKey (h : d.Extended d') (cs : Constants) :
    NestClient.bindingKey d' cs = NestClient.bindingKey d cs := by
  unfold NestClient.bindingKey
  rw [h.head?]

/-- A search that passes over decorators of other names finds the same in both lists. -/
theorem Decorated.findSome? {α : Type} {r : α → α → Prop} {f : Decorator → Option α}
    (h : Decorated names ds ds') (hother : ∀ d, d.name ∉ names → f d = none)
    (hextended : ∀ d d', d.Extended d' → Option.Rel r (f d) (f d')) :
    Option.Rel r (ds.findSome? f) (ds'.findSome? f) := by
  induction h with
  | nil => exact .none
  | @kept d d' ds ds' hd _ ih =>
    rw [List.findSome?_cons, List.findSome?_cons]
    have hfound := hextended d d' hd
    generalize f d = found, f d' = found' at hfound
    cases hfound with
    | none => exact ih
    | some hr => exact .some hr
  | inserted hd _ ih => rwa [List.findSome?_cons, hother _ hd]

/-- The first decorator of a known name, with what its name stands for. -/
theorem Decorated.named {α : Type} {f : Text → Option α} (h : Decorated names ds ds')
    (hother : ∀ name, name ∉ names → f name = none) :
    Option.Rel (fun a b => a.1.Extended b.1 ∧ b.2 = a.2)
      (ds.findSome? fun d => (f d.name).map (d, ·)) (ds'.findSome? fun d => (f d.name).map (d, ·)) := by
  refine h.findSome? (fun d hd => ?_) fun d d' hd => ?_
  · rw [hother d.name hd, Option.map_none]
  · rw [hd.name]
    cases f d.name with
    | none => exact .none
    | some a => exact .some ⟨hd, rfl⟩

/-! ## Declarations -/

/-- The parameter with its decorators decorated. -/
structure ParameterDecl.Decorated (p p' : ParameterDecl) : Prop where
  same : { p' with decorators := p.decorators } = p
  decorators : NestClient.Decorated bindingDecorators p.decorators p'.decorators

/-- The method with its decorators and those of its parameters decorated. It may stand on another line. -/
structure MethodDecl.Decorated (m m' : MethodDecl) : Prop where
  same : { m' with decorators := m.decorators, parameters := m.parameters, line := m.line } = m
  decorators : NestClient.Decorated verbDecorators m.decorators m'.decorators
  parameters : List.Forall₂ ParameterDecl.Decorated m.parameters m'.parameters

/-- The class with its decorators and those of its methods decorated. It may stand on another line. -/
structure ClassDecl.Decorated (c c' : ClassDecl) : Prop where
  same : { c' with decorators := c.decorators, methods := c.methods, line := c.line } = c
  decorators : NestClient.Decorated [controllerDecorator] c.decorators c'.decorators
  methods : List.Forall₂ MethodDecl.Decorated c.methods c'.methods

structure SourceFile.Decorated (f f' : SourceFile) : Prop where
  same : { f' with classes := f.classes } = f
  classes : List.Forall₂ ClassDecl.Decorated f.classes f'.classes

structure Project.Decorated (p p' : Project) : Prop where
  same : { p' with files := p.files } = p
  files : List.Forall₂ SourceFile.Decorated p.files p'.files

/-! ## Parameters -/

theorem Binding.ofName?_of_not_mem {name : Text} (h : name ∉ bindingDecorators) :
    Binding.ofName? name = none := by
  simp only [bindingDecorators, List.mem_cons, List.not_mem_nil, or_false, not_or] at h
  obtain ⟨hparam, hquery, hbody, hsession, hreq, hrequest⟩ := h
  rw [ofName?, if_neg hparam, if_neg hquery, if_neg hbody, if_neg]
  simp only [Bool.or_eq_true, decide_eq_true_eq, not_or]
  exact ⟨⟨hsession, hreq⟩, hrequest⟩

theorem ParameterDecl.Decorated.classify {p p' : ParameterDecl} (h : p.Decorated p') (keys : List Text)
    (cs : Constants) : NestClient.classify p' keys cs = NestClient.classify p keys cs := by
  have hname : p'.name = p.name := congrArg (·.name) h.same
  have htype : p'.type = p.type := congrArg (·.type) h.same
  have hquestion : p'.question = p.question := congrArg (·.question) h.same
  have hinitializer : p'.initializer = p.initializer := congrArg (·.initializer) h.same
  have hfound := h.decorators.named fun _ => Binding.ofName?_of_not_mem
  unfold NestClient.classify firstBinding
  rw [hname, htype, hquestion, hinitializer]
  generalize p.decorators.findSome? _ = found, p'.decorators.findSome? _ = found' at hfound
  cases hfound with
  | none => rfl
  | @some a b hr =>
    obtain ⟨d, binding⟩ := a
    obtain ⟨d', binding'⟩ := b
    obtain ⟨hd, rfl⟩ : d.Extended d' ∧ binding' = binding := hr
    cases binding' with
    | server => simp only [hd.name]
    | request role => simp only [hd.bindingKey]

/-- Bound parameters that differ in the decorators of their declarations at most. -/
structure BoundParameter.Same (b b' : BoundParameter) : Prop where
  name : b'.declaration.name = b.declaration.name
  classification : b'.classification = b.classification
  dropped : b'.dropped = b.dropped

namespace BoundParameter.Same

variable {b b' : BoundParameter}

theorem role (h : b.Same b') : b'.role = b.role := by
  rw [BoundParameter.role, BoundParameter.role, h.classification, h.dropped]

theorem toParameter (h : b.Same b') (resolver : TypeText.Resolver) (available : List Text) :
    b'.toParameter resolver available = b.toParameter resolver available := by
  rw [BoundParameter.toParameter, BoundParameter.toParameter, h.role, h.name, h.classification]

theorem event? (h : b.Same b') (controller method : Text) :
    b'.event? controller method = b.event? controller method := by
  rw [BoundParameter.event?, BoundParameter.event?, h.name, h.classification, h.dropped]

end BoundParameter.Same

theorem forall₂_bindParameters {ps ps' : List ParameterDecl}
    (h : List.Forall₂ ParameterDecl.Decorated ps ps') (verb : Verb) (keys : List Text) (cs : Constants)
    (hasBody : Bool) : List.Forall₂ BoundParameter.Same (bindParameters verb keys cs hasBody ps)
      (bindParameters verb keys cs hasBody ps') := by
  induction h generalizing hasBody with
  | nil => exact .nil
  | @cons p p' _ _ hp _ ih =>
    have hsame : (bindParameter verb keys cs hasBody p).Same (bindParameter verb keys cs hasBody p') := {
      name := congrArg (·.name) hp.same
      classification := hp.classify keys cs
      dropped := by rw [bindParameter, bindParameter, hp.classify keys cs] }
    rw [bindParameters_cons, bindParameters_cons, hsame.role]
    exact .cons hsame (ih _)

/-! ## Controllers -/

theorem MethodDecl.Decorated.verb? {m m' : MethodDecl} (h : m.Decorated m') :
    Option.Rel (fun a b => a.1.Extended b.1 ∧ b.2 = a.2) m.verb? m'.verb? :=
  h.decorators.named fun _ => Verb.ofDecorator?_eq_none_iff.2

theorem ClassDecl.Decorated.decorator {c c' : ClassDecl} (h : c.Decorated c') :
    Option.Rel Decorator.Extended (c.decorator controllerDecorator) (c'.decorator controllerDecorator) := by
  rw [ClassDecl.decorator, ClassDecl.decorator, List.find?_eq_findSome?_guard,
    List.find?_eq_findSome?_guard]
  refine h.decorators.findSome? (fun d hd => ?_) fun d d' hd => ?_
  · rw [Option.guard, if_neg]
    simpa using hd
  · rw [Option.guard, Option.guard, hd.name]
    split
    · exact .some hd
    · exact .none

/-- The controller with its class and its file decorated. -/
structure Controller.Decorated (c c' : Controller) : Prop where
  group : c'.group = c.group
  declaration : c.declaration.Decorated c'.declaration
  source : c.source.Decorated c'.source

theorem SourceFile.Decorated.knownConstants {f f' : SourceFile} (h : f.Decorated f') (shared : Constants) :
    f'.knownConstants shared = f.knownConstants shared := by
  have hconstants : f'.constants = f.constants := congrArg (·.constants) h.same
  rw [SourceFile.knownConstants, SourceFile.knownConstants, hconstants]

theorem SourceFile.Decorated.importedFrom {f f' : SourceFile} (h : f.Decorated f')
    (isShared : Text → Bool) : f'.importedFrom isShared = f.importedFrom isShared := by
  have himports : f'.imports = f.imports := congrArg (·.imports) h.same
  have hrefs : f'.namespaceRefs = f.namespaceRefs := congrArg (·.namespaceRefs) h.same
  rw [SourceFile.importedFrom, SourceFile.importedFrom, himports, hrefs]

section

variable (config : Config) (apiPrefix : Text) (shared : Constants)

theorem SourceFile.Decorated.controller? {f f' : SourceFile} (h : f.Decorated f') :
    Option.Rel Controller.Decorated (f.controller? config apiPrefix shared)
      (f'.controller? config apiPrefix shared) := by
  have hpath : f'.path = f.path := congrArg (·.path) h.same
  have hfound : Option.Rel ClassDecl.Decorated
      (f.classes.find? fun c => (c.decorator controllerDecorator).isSome)
      (f'.classes.find? fun c => (c.decorator controllerDecorator).isSome) := by
    refine find?_related h.classes fun c c' hc => ?_
    have hdecorator := hc.decorator
    generalize c.decorator _ = found, c'.decorator _ = found' at hdecorator
    cases hdecorator <;> rfl
  unfold SourceFile.controller?
  generalize f.classes.find? _ = found, f'.classes.find? _ = found' at hfound
  cases hfound with
  | none => exact .none
  | @some c c' hc =>
    refine .some ⟨?_, hc, h⟩
    have hname : c'.name = c.name := congrArg (·.name) hc.same
    have hdecorator := hc.decorator
    dsimp only
    rw [hname, hpath, h.knownConstants]
    generalize c.decorator _ = found, c'.decorator _ = found' at hdecorator ⊢
    cases hdecorator with
    | none => rfl
    | some hd => rw [hd.routeArgument]

theorem forall₂_discover {files files' : List SourceFile}
    (h : List.Forall₂ SourceFile.Decorated files files') :
    List.Forall₂ Controller.Decorated (discover files config apiPrefix shared)
      (discover files' config apiPrefix shared) :=
  List.rel_filterMap (fun _ _ hf => hf.controller? config apiPrefix shared) h

end

/-! ## Endpoints -/

namespace Extractor

variable {x : Extractor} {c c' : Controller} {m m' : MethodDecl}

theorem forall₂_boundParameters (hc : c.Decorated c') (hm : m.Decorated m') (verb : Verb) :
    List.Forall₂ BoundParameter.Same (x.boundParameters c m verb) (x.boundParameters c' m' verb) := by
  rw [boundParameters, boundParameters, hc.source.knownConstants]
  exact forall₂_bindParameters hm.parameters _ _ _ _

theorem endpoint_decorated (hc : c.Decorated c') (hm : m.Decorated m') (hd : d.Extended d') (verb : Verb) :
    x.endpoint c' m' d' verb = x.endpoint c m d verb := by
  have hname : m'.name = m.name := congrArg (·.name) hm.same
  have hreturn : m'.returnType = m.returnType := congrArg (·.returnType) hm.same
  have hparameters : (x.boundParameters c' m' verb).map (·.toParameter x.config.resolver
        (c.source.importedFrom x.config.isSharedModule))
      = (x.boundParameters c m verb).map (·.toParameter x.config.resolver
        (c.source.importedFrom x.config.isSharedModule)) :=
    map_eq_of_related (forall₂_boundParameters hc hm verb) fun _ _ hb => hb.toParameter _ _
  rw [endpoint, endpoint, hc.source.importedFrom, hc.source.knownConstants, hd.routeArgument, hc.group,
    hname, hreturn, hparameters]

theorem extract_decorated (hc : c.Decorated c') : x.extract c' = x.extract c := by
  refine filterMap_eq_of_related hc.declaration.methods fun m m' hm => ?_
  have hverb := hm.verb?
  generalize m.verb? = found, m'.verb? = found' at hverb
  cases hverb with
  | none => rfl
  | @some a b hr =>
    obtain ⟨d, verb⟩ := a
    obtain ⟨d', verb'⟩ := b
    obtain ⟨hd, rfl⟩ : d.Extended d' ∧ verb' = verb := hr
    exact congrArg some (endpoint_decorated hc hm hd verb')

theorem events_decorated (hc : c.Decorated c') : x.events c' = x.events c := by
  refine flatMap_eq_of_related hc.declaration.methods fun m m' hm => ?_
  have hname : m'.name = m.name := congrArg (·.name) hm.same
  have hverb := hm.verb?
  generalize m.verb? = found, m'.verb? = found' at hverb ⊢
  cases hverb with
  | none => rfl
  | @some a b hr =>
    obtain ⟨d, verb⟩ := a
    obtain ⟨d', verb'⟩ := b
    obtain ⟨hd, rfl⟩ : d.Extended d' ∧ verb' = verb := hr
    dsimp only
    rw [hname, hc.group]
    exact filterMap_eq_of_related (forall₂_boundParameters hc hm verb') fun _ _ hb => hb.event? _ _

end Extractor

/-! ## Projects -/

namespace Project

variable {p p' : Project}

/-- Decorators of other names and arguments behind the first one leave no trace: the controllers of a
project have the same groups, each of them has the same endpoints, and so the analysis and its reports are
the same. -/
theorem analysis_decorated (h : p.Decorated p') (config : Config) (apiPrefix : Text) (shared : Constants) :
    (discover p'.files config apiPrefix shared).map (·.group)
        = (discover p.files config apiPrefix shared).map (·.group) ∧
      (∀ x : Extractor, (discover p'.files config apiPrefix shared).map x.extract
        = (discover p.files config apiPrefix shared).map x.extract) ∧
      p'.analyze config shared = p.analyze config shared ∧
      p'.analysisEvents config shared = p.analysisEvents config shared := by
  have hskipped : p'.skipped = p.skipped := congrArg (·.skipped) h.same
  refine ⟨map_eq_of_related (forall₂_discover config apiPrefix shared h.files) fun _ _ hc => hc.group,
    fun x => map_eq_of_related (forall₂_discover config apiPrefix shared h.files) fun _ _ hc =>
      x.extract_decorated hc, ?_, ?_⟩
  · have hfound := forall₂_discover config (resolvePrefix config shared) shared h.files
    unfold analyze
    dsimp only
    rw [hskipped, h.files.length_eq, hfound.length_eq, filterMap_eq_of_related hfound fun _ _ hc => ?_]
    rw [Extractor.plan?, Extractor.plan?, Extractor.extract_decorated hc, hc.group]
  · have hfound := forall₂_discover config (resolvePrefix config shared) shared h.files
    have hcontrollers : (discover p'.files config (resolvePrefix config shared) shared).map Controller.found
        = (discover p.files config (resolvePrefix config shared) shared).map Controller.found :=
      map_eq_of_related hfound fun _ _ hc => by rw [Controller.found, Controller.found, hc.group]
    have hplans (x : Extractor) :
        (discover p'.files config (resolvePrefix config shared) shared).flatMap x.planEvents
          = (discover p.files config (resolvePrefix config shared) shared).flatMap x.planEvents :=
      flatMap_eq_of_related hfound fun _ _ hc => by
        rw [Extractor.planEvents, Extractor.planEvents, Extractor.extract_decorated hc,
          Extractor.events_decorated hc, hc.group]
    unfold analysisEvents
    dsimp only
    rw [hcontrollers, hplans]

/-- `@Controller('team') class TeamController { @Get(':id') find(@Param('id') id: string) {} }`. -/
def teamFile (controller get param : List Decorator) : SourceFile :=
  { path := "team.controller.ts".toList
    classes := [{
      name := "TeamController".toList
      decorators := controller
      methods := [{
        name := "find".toList
        decorators := get
        parameters := [{ name := "id".toList, decorators := param, type := "string".toList }] }] }] }

/-- A decorator with one literal and other arguments. -/
def decoratorOf (name value : String) (more : List Argument) : Decorator :=
  { name := name.toList, arguments := { kind := .string, value := some value.toList } :: more }

theorem extended_decoratorOf (name value : String) (more : List Argument) :
    (decoratorOf name value []).Extended (decoratorOf name value more) :=
  ⟨rfl, more, rfl, fun h => nomatch h⟩

/-- `@ApiTags() @Controller('team', OPTIONS)`, `@HttpCode() @Get(':id', OPTIONS) @UseGuards()` and
`@Ip() @Param('id', OPTIONS)` in the place of the three decorators. -/
theorem analysis_decorated_team :
    let options : Argument := { kind := .identifier, text := "OPTIONS".toList }
    let p : Project := {
      root := ⟨.root, []⟩
      configPath := ⟨.root, []⟩
      files := [teamFile [decoratorOf "Controller" "team" []] [decoratorOf "Get" ":id" []]
        [decoratorOf "Param" "id" []]] }
    let p' : Project := { p with
      files := [teamFile [{ name := "ApiTags".toList }, decoratorOf "Controller" "team" [options]]
        [{ name := "HttpCode".toList }, decoratorOf "Get" ":id" [options], { name := "UseGuards".toList }]
        [{ name := "Ip".toList }, decoratorOf "Param" "id" [options]]] }
    p.Decorated p' ∧ p'.analyze {} [] = p.analyze {} [] ∧
      (p.analyze {} []).plans.map (fun plan => plan.endpoints.map (·.route)) = [["team/:id".toList]] := by
  intro options p p'
  have h : p.Decorated p' := {
    same := rfl
    files := .cons ⟨rfl, .cons {
      same := rfl
      decorators := .inserted (by decide) (.kept (extended_decoratorOf _ _ _) .nil)
      methods := .cons {
        same := rfl
        decorators := .inserted (by decide) (.kept (extended_decoratorOf _ _ _) (.inserted (by decide) .nil))
        parameters := .cons ⟨rfl, .inserted (by decide) (.kept (extended_decoratorOf _ _ _) .nil)⟩ .nil }
        .nil } .nil⟩ .nil }
  exact ⟨h, (analysis_decorated h {} [] []).2.2.1, by decide +kernel⟩

end Project

end NestClient
