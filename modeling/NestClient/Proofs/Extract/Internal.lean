import NestClient.Proofs.Extract.Parameters
import NestClient.Proofs.Route.Segments

/-! The placeholders of parameters that are set aside as internal path keys. The parameter goes by its
key or by its own name, its placeholder by the key only and as it is written; so a placeholder is left
where the parameter is known by its name alone, and where blanks stand around it. -/

namespace NestClient.Extractor

variable (x : Extractor) (c : Controller) (d : Decorator)

/-- The route of a method as its decorators give it, before internal parts and the prefix go away. -/
def declaredRoute : Text :=
  Route.join [c.group.basePath, routeArgument (some d) x.routePrefix x.config.prefixConstant
    (c.source.knownConstants x.constants)]

/-- The segments of the declared route as they are looked at for internal placeholders. -/
def declaredSegments : List Text := Route.writtenSegments (x.declaredRoute c d) x.config.internalPathKeys

theorem route_endpoint (m : MethodDecl) (verb : Verb) : (x.endpoint c m d verb).route
    = Route.dropPrefix (Route.dropInternal (x.declaredRoute c d) x.config.internalPathKeys)
      (Route.trimSlashes x.routePrefix) := by
  unfold endpoint routeTemplate declaredRoute
  dsimp only

/-- What is left of the declared segments stands in the endpoint's route, but for those of the prefix. -/
theorem segments_route (m : MethodDecl) (verb : Verb) : ∃ front,
    Route.segments (Route.dropInternal (x.declaredRoute c d) x.config.internalPathKeys)
      = front ++ Route.segments (x.endpoint c m d verb).route ∧
    (front = [] ∨ front = Route.segments x.routePrefix) := by
  obtain ⟨front, hroute, hfront⟩ := Route.segments_dropPrefix
    (Route.dropInternal (x.declaredRoute c d) x.config.internalPathKeys) (Route.trimSlashes x.routePrefix)
  rw [Route.segments_trimSlashes] at hfront
  rw [route_endpoint]
  exact ⟨front, hroute, hfront⟩

/-- An internal parameter is not passed to the client's method. The endpoint's route holds a placeholder
for it only if that was written so that the internal keys do not tell it: the parameter is known by its
name and its key is no internal one, or blanks stand around the placeholder. A placeholder written so is
there, unless it is part of the prefix of all routes. -/
theorem placeholder_of_internal {m : MethodDecl} {verb : Verb} {p : ParameterDecl} {key : Text}
    (hm : m ∈ c.declaration.methods) (hverb : m.verb? = some (d, verb)) (hp : p ∈ m.parameters)
    (hreason : (classify p x.config.internalPathKeys (c.source.knownConstants x.constants)).reason
      = some .internalKey)
    (hkey : (classify p x.config.internalPathKeys (c.source.knownConstants x.constants)).key = some key) :
    ∃ e ∈ x.extract c, e = x.endpoint c m d verb ∧
      (∃ q ∈ e.parameters, q.name = p.name ∧ q.key = some key ∧ q.role = .ignored) ∧
      (':' :: key ∈ Route.segments e.route → ∃ s ∈ x.declaredSegments c d, Text.trim s = ':' :: key ∧
        (key ∉ x.config.internalPathKeys ∧ p.name ∈ x.config.internalPathKeys ∨ s ≠ ':' :: key)) ∧
      (∀ s ∈ x.declaredSegments c d, Text.trim s = ':' :: key →
        Route.isInternalSegment x.config.internalPathKeys s = false →
        ':' :: key ∉ Route.segments x.routePrefix → ':' :: key ∈ Route.segments e.route) := by
  obtain ⟨front, hroute, hfront⟩ := x.segments_route c d m verb
  obtain ⟨hrole, hknown⟩ := classify_of_reason hreason
  refine ⟨_, (x.mem_extract c).2 ⟨m, hm, d, verb, hverb, rfl⟩, rfl, ?_, fun hleft => ?_,
    fun s hs htrim hkept hout => ?_⟩
  · obtain ⟨b, hb, hdecl, hclass⟩ := exists_mem_bindParameters verb x.config.internalPathKeys
      (c.source.knownConstants x.constants) false hp
    refine ⟨_, List.mem_map_of_mem hb, congrArg (·.name) hdecl, ?_, ?_⟩
    · exact (congrArg (·.key) hclass).trans hkey
    · exact BoundParameter.role_of_ignored (hclass ▸ hrole)
  · have hmem : ':' :: key
        ∈ Route.segments (Route.dropInternal (x.declaredRoute c d) x.config.internalPathKeys) := by
      rw [hroute]
      exact List.mem_append_right front hleft
    obtain ⟨-, s, hs, hkept, htrim⟩ := Route.mem_segments_dropInternal.1 hmem
    refine ⟨s, hs, htrim, ?_⟩
    obtain ⟨key', hkey', hknown⟩ := hknown rfl
    obtain rfl : key' = key := Option.some.inj (hkey'.symm.trans hkey)
    by_cases hin : key' ∈ x.config.internalPathKeys
    · refine .inr ?_
      rintro rfl
      simp [Route.isInternalSegment, hin] at hkept
    · exact .inl ⟨hin, hknown.resolve_left hin⟩
  · have hmem := Route.mem_segments_dropInternal.2 ⟨by simp, s, hs, hkept, htrim⟩
    rw [hroute] at hmem
    refine (List.mem_append.1 hmem).resolve_left fun hmem => ?_
    rcases hfront with rfl | rfl
    · simp at hmem
    · exact hout hmem

/-- `@Get(':org/b') one(@Param('org') orgCode: string)` keeps its placeholder. -/
theorem placeholder_of_internal_renamed :
    let p : ParameterDecl := {
      name := "orgCode".toList
      decorators := [{ name := "Param".toList, arguments := [{ kind := .string, value := some "org".toList }] }]
      type := "string".toList }
    let d : Decorator := { name := "Get".toList, arguments := [{ kind := .string, value := some ":org/b".toList }] }
    let m : MethodDecl := { name := "one".toList, decorators := [d], parameters := [p] }
    let c : Controller := {
      group := { name := "AController".toList, basePath := "a".toList, sourceFile := "a.ts".toList }
      declaration := { name := "AController".toList, methods := [m] }
      source := { path := "a.ts".toList } }
    let x : Extractor := { config := {}, apiPrefix := [] }
    (classify p x.config.internalPathKeys []).reason = some .internalKey ∧
      ∃ e ∈ x.extract c, (∃ q ∈ e.parameters, q.name = "orgCode".toList ∧ q.role = .ignored) ∧
        ":org".toList ∈ Route.segments e.route := by
  intro p d m c x
  have hreason : (classify p x.config.internalPathKeys []).reason = some .internalKey := by decide
  have hverb : m.verb? = some (d, .get) := by decide
  have hkey : (classify p x.config.internalPathKeys []).key = some "org".toList := by decide
  obtain ⟨e, he, -, ⟨q, hq, hname, -, hrole⟩, -, hleft⟩ :=
    x.placeholder_of_internal c d (by simp [c]) hverb (by simp [m]) hreason hkey
  exact ⟨hreason, e, he, ⟨q, hq, hname, hrole⟩, hleft ":org".toList (by decide) (by decide) (by decide) (by decide)⟩

end NestClient.Extractor
