import Mathlib.Data.List.Infix
import NestClient.Extract.Endpoints
import NestClient.Proofs.Route.Joined

/-! Whether the prefix of all routes is dropped where a controller names it.

* `endsInside_lead`: joining does not touch the holes of the prefix.
* `segments_behind`: what stands behind a prefix is joined to it segment by segment.
* `routeTemplate_behind_iff`: naming the prefix makes no difference exactly if joining and the internal
  keys leave the prefix as it is, or nothing of it, and what follows does not begin with it. -/

namespace NestClient

namespace Route

variable {lead x r : Text} {keys : List Text}

/-- A fragment as a controller or a method declares it, without holes and blanks. -/
structure Plain (fragment : Text) : Prop where
  holes : ¬Template.opening <:+: fragment
  blanks : ∀ c ∈ fragment, isBlank c = false

theorem Plain.trimmed (h : Plain x) : Text.Trimmed x := Text.trimmed_of_not_blank h.blanks

theorem Plain.blanks_of_mem_split (h : Plain x) :
    ∀ piece ∈ Text.split '/' x, ∀ c ∈ piece, isBlank c = false :=
  fun _ hpiece c hc => h.blanks c ((Text.infix_of_mem_split hpiece).subset hc)

/-- What joining and the internal keys leave of a prefix. -/
def leftOf (lead : Text) (keys : List Text) : Text := dropInternal (join [lead ++ ['/']]) keys

/-! ## Holes of the prefix -/

theorem endsInside_collapse (inside : Bool) (t : Text) :
    Template.endsInside inside (collapse t) = Template.endsInside inside t := by
  fun_induction Template.endsInside inside t with
  | case1 inside => cases inside <;> rfl
  | case2 rest ih => exact ih
  | case3 c rest hopen ih =>
    rw [collapse]
    split
    · exact ih
    · rw [Template.endsInside_of_not_open, ih]
      intro more hc hmore
      -- Collapsing slashes brings no other character to the front.
      have hhead := head?_collapse rest
      rw [hmore] at hhead
      obtain ⟨behind, hrest⟩ := List.head?_eq_some_iff.1 hhead.symm
      exact hopen behind hc hrest
  | case4 rest ih =>
    rw [collapse, if_neg (by simp), Template.endsInside, if_pos rfl, ih]
  | case5 c rest hc ih =>
    rw [collapse]
    split
    · exact ih
    · rw [Template.endsInside, if_neg hc, ih]

theorem endsInside_trimSlashes (t : Text) :
    Template.endsInside false (trimSlashes t) = Template.endsInside false t := by
  have hinert : ∀ {slashes : Text}, (∀ c ∈ slashes, decide (c = '/') = true) →
      ∀ c ∈ slashes, c ≠ '$' ∧ c ≠ '}' := by
    intro slashes hslashes c hc
    rw [of_decide_eq_true (hslashes c hc)]
    decide
  obtain ⟨front, back, ht, hfront, hback⟩ := Text.exists_trimBy (· = '/') t
  have hhead : back.head? ≠ some '{' := by
    intro heq
    exact absurd (hback _ (List.mem_of_mem_head? heq)) (by decide)
  conv => rhs; rw [ht]
  rw [Template.endsInside_inert_append (hinert hfront), Template.endsInside_append hhead,
    Template.endsInside_of_inert (hinert hback)]
  rfl

theorem endsInside_dropWhile (t : Text) :
    Template.endsInside false (t.dropWhile isBlank) = Template.endsInside false t := by
  have hinert : ∀ c ∈ t.takeWhile isBlank, c ≠ '$' ∧ c ≠ '}' := by
    intro c hc
    have hblank : isBlank c = true := List.mem_takeWhile_imp hc
    constructor <;> rintro rfl <;> exact absurd hblank (by decide)
  conv => rhs; rw [← List.takeWhile_append_dropWhile (p := isBlank) (l := t)]
  rw [Template.endsInside_inert_append hinert]

/-! ## Behind the prefix -/

theorem trim_behind (hx : Plain x) (lead : Text) :
    Text.trim (lead ++ '/' :: x) = lead.dropWhile isBlank ++ '/' :: x := by
  have hlast : ∀ c, (lead.dropWhile isBlank ++ '/' :: x).getLast? = some c → isBlank c = false := by
    intro c hc
    have hmem : c ∈ '/' :: x := by
      rw [List.getLast?_append_of_ne_nil _ (List.cons_ne_nil '/' x)] at hc
      exact List.mem_of_getLast? hc
    rcases List.mem_cons.1 hmem with rfl | hmem
    · decide
    · exact hx.blanks c hmem
  have hhead : ∀ c, ('/' :: x).head? = some c → isBlank c = false := by
    intro c hc
    rw [← Option.some.inj hc]
    decide
  have hreverse : (lead.dropWhile isBlank ++ '/' :: x).reverse.dropWhile isBlank
      = (lead.dropWhile isBlank ++ '/' :: x).reverse :=
    Text.dropWhile_eq_self fun c hc => hlast c (by rwa [List.head?_reverse] at hc)
  rw [Text.trim, Text.trimBy, Text.dropWhile_append_of_head? (List.cons_ne_nil '/' x) hhead, hreverse,
    List.reverse_reverse]

theorem segments_lead (lead : Text) :
    segments (join [lead ++ ['/']]) = segments (lead.dropWhile isBlank) := by
  rw [segments_join, List.flatMap_singleton, trim_behind ⟨by decide, by simp⟩, segments_append_cons,
    segments_nil, List.append_nil]

theorem endsInside_lead (lead : Text) :
    Template.endsInside false (join [lead ++ ['/']]) = Template.endsInside false lead := by
  have hjoin : join [lead ++ ['/']] = trimSlashes (collapse (lead.dropWhile isBlank ++ ['/'])) := by
    rw [join, List.map_singleton, trim_behind ⟨by decide, by simp⟩, List.filter_cons_of_pos (by simp),
      List.filter_nil, Text.join_singleton]
  rw [hjoin, endsInside_trimSlashes, endsInside_collapse, Template.endsInside_append (by simp),
    endsInside_dropWhile, Template.endsInside_of_inert (by simp)]

/-- A fragment behind a prefix and a route below it are joined segment by segment. -/
theorem segments_behind (hx : Plain x) (lead r : Text) :
    segments (join [lead ++ '/' :: x, r])
      = segments (join [lead ++ ['/']]) ++ segments (join [x, r]) := by
  have hfragments : ∀ first, segments (join [first, r])
      = segments (Text.trim first) ++ segments (Text.trim r) := by
    intro first
    rw [segments_join, List.flatMap_cons, List.flatMap_singleton]
  rw [segments_lead, hfragments, hfragments, trim_behind hx, segments_append_cons, hx.trimmed.trim_eq,
    List.append_assoc]

/-- The route behind a prefix is one of the two parts alone, or both with a slash between them. -/
theorem join_behind (hx : Plain x) (lead r : Text) :
    join [lead ++ ['/']] = [] ∧ join [lead ++ '/' :: x, r] = join [x, r] ∨
      join [x, r] = [] ∧ join [lead ++ '/' :: x, r] = join [lead ++ ['/']] ∨
      join [lead ++ '/' :: x, r] = join [lead ++ ['/']] ++ '/' :: join [x, r] := by
  have hsegments := segments_behind hx lead r
  have hwhole := joined_join [lead ++ '/' :: x, r]
  have hlead := joined_join [lead ++ ['/']]
  have hrest := joined_join [x, r]
  by_cases hfirst : segments (join [lead ++ ['/']]) = []
  · rw [hfirst, List.nil_append] at hsegments
    exact .inl ⟨hlead.segments_inj ⟨List.isChain_nil, rfl⟩ hfirst, hwhole.segments_inj hrest hsegments⟩
  by_cases hsecond : segments (join [x, r]) = []
  · rw [hsecond, List.append_nil] at hsegments
    exact .inr (.inl ⟨hrest.segments_inj ⟨List.isChain_nil, rfl⟩ hsecond,
      hwhole.segments_inj hlead hsegments⟩)
  · refine .inr (.inr ?_)
    rw [hwhole.eq_join, hsegments, Text.join_append hfirst hsecond, ← hlead.eq_join, ← hrest.eq_join,
      List.singleton_append]

theorem dropInternal_nil (keys : List Text) : dropInternal [] keys = [] := rfl

/-- Internal parts are dropped from the prefix and from what follows it, unless a hole that the prefix
leaves open is closed there. -/
theorem segments_dropInternal_behind (hx : Plain x) (hr : Plain r) (keys : List Text)
    (hholes : Template.endsInside false lead = false ∨ '}' ∉ x ++ r) :
    segments (dropInternal (join [lead ++ '/' :: x, r]) keys)
      = segments (leftOf lead keys) ++ segments (dropInternal (join [x, r]) keys) := by
  have hfrom : ∀ {part : Text}, '/' ∉ part → part ≠ [] → part <:+: join [x, r] →
      part <:+: x ∨ part <:+: r := by
    intro part hpart hne hin
    obtain ⟨fragment, hfragment, hpiece⟩ := infix_of_infix_join hpart hne hin
    rcases List.mem_pair.1 hfragment with rfl | rfl
    · exact .inl hpiece
    · exact .inr hpiece
  have hopening : ¬Template.opening <:+: join [x, r] := fun hin =>
    (hfrom (by decide) (by decide) hin).elim hx.holes hr.holes
  have hclosed : Template.endsInside false (join [lead ++ ['/']]) = false ∨ '}' ∉ join [x, r] := by
    rw [endsInside_lead]
    refine hholes.imp_right fun hnot hmem => hnot ?_
    have hcases := hfrom (by decide) (by decide) ((List.singleton_infix_iff _ _).2 hmem)
    rw [List.singleton_infix_iff, List.singleton_infix_iff] at hcases
    exact List.mem_append.2 hcases
  rcases join_behind hx lead r with ⟨hnil, hwhole⟩ | ⟨hnil, hwhole⟩ | hwhole
  · rw [hwhole, leftOf, hnil, dropInternal_nil, segments_nil, List.nil_append]
  · rw [hwhole, leftOf, hnil, dropInternal_nil, segments_nil, List.append_nil]
  · rw [hwhole, segments_dropInternal_append hopening hclosed, leftOf]

/-- Of a prefix that is joined, has no holes and no blanks, and names no internal key, all is left. -/
theorem leftOf_eq_self (hjoined : Joined lead) (hlead : Plain lead)
    (hinternal : ∀ s ∈ segments lead, isInternalSegment keys s = false) : leftOf lead keys = lead := by
  have hstart : lead.dropWhile isBlank = lead := Text.dropWhile_eq_self hlead.trimmed.head
  have hwhole : join [lead ++ ['/']] = lead := by
    apply (joined_join _).segments_inj hjoined
    rw [segments_lead, hstart]
  have hkept : (Text.split '/' lead).filter (fun s => !isInternalSegment keys s) = Text.split '/' lead := by
    rw [List.filter_eq_self]
    intro piece hpiece
    by_cases hnil : piece = []
    · rw [hnil]
      rfl
    · have hmem : piece ∈ segments lead := List.mem_filter.2 ⟨hpiece, by simpa using hnil⟩
      rw [hinternal piece hmem]
      rfl
  apply (joined_dropInternal _ _).segments_inj hjoined
  rw [hwhole, dropInternal, Template.fill_of_no_hole hlead.holes, hkept,
    segments_join_of_not_blank hlead.blanks_of_mem_split, ← segments_textJoin, Text.join_split]

end Route

/-! ## The routes of a controller -/

/-- A controller's decorator whose argument is written in one form. -/
def declared (kind : ArgumentKind) (value : Text) : Decorator :=
  { name := controllerDecorator, arguments := [{ kind, value := some value }] }

/-- A template that names a constant and goes on below it. -/
def belowConstant (name x : Text) : Text := Template.opening ++ name ++ '}' :: '/' :: x

variable {config : Config} {x r : Text}

theorem get?_append_singleton (cs : Constants) (name value : Text) :
    Constants.get? (cs ++ [(name, value)]) name = some value := by
  rw [Constants.get?, List.reverse_append, List.reverse_singleton, List.singleton_append,
    List.lookup_cons_self]

theorem routeArgument_belowConstant (hname : '}' ∉ config.prefixConstant)
    (hlast : lastName config.prefixConstant = config.prefixConstant) (hx : Route.Plain x)
    (lead : Text) (known : Constants) :
    routeArgument (some (declared .template (belowConstant config.prefixConstant x))) lead
      config.prefixConstant known = lead ++ '/' :: x := by
  have hvalue : (known ++ [(config.prefixConstant, lead)]).get? (lastName config.prefixConstant)
      = some lead := by
    rw [hlast, get?_append_singleton]
  have hopening : ¬Template.opening <:+: '/' :: x := by
    intro hin
    exact ((Text.infix_append_cons (s := []) (by decide)).1 hin).elim (by decide) hx.holes
  exact Template.fill_hole hname hvalue hopening

theorem routeArgument_plain (hx : Route.Plain x) {kind : ArgumentKind}
    (hkind : kind = .string ∨ kind = .template) (lead name : Text) (known : Constants) :
    routeArgument (some (declared kind x)) lead name known = x := by
  rcases hkind with rfl | rfl
  · rfl
  · exact Template.fill_of_no_hole hx.holes

/-- A controller declared below the prefix constant and one declared without it have the same routes
exactly if nothing is left of the prefix, or if it is left as it is and what follows does not begin with
it: the prefix is looked for as the constant gives it, but only after joining and the internal keys have
rewritten it. -/
theorem routeTemplate_behind_iff (hname : '}' ∉ config.prefixConstant)
    (hlast : lastName config.prefixConstant = config.prefixConstant) (hx : Route.Plain x)
    (hr : Route.Plain r) (shared known : Constants)
    (hholes : Template.endsInside false (resolvePrefix config shared) = false ∨ '}' ∉ x ++ r)
    {kind : ArgumentKind} (hkind : kind = .string ∨ kind = .template) :
    routeTemplate config (resolvePrefix config shared)
        (routeArgument (some (declared .template (belowConstant config.prefixConstant x)))
          (resolvePrefix config shared) config.prefixConstant known) r
      = routeTemplate config (resolvePrefix config shared)
        (routeArgument (some (declared kind x)) (resolvePrefix config shared) config.prefixConstant known) r
    ↔ Route.leftOf (resolvePrefix config shared) config.internalPathKeys = [] ∨
      Route.leftOf (resolvePrefix config shared) config.internalPathKeys = resolvePrefix config shared ∧
        ¬Route.Leads (resolvePrefix config shared)
          (Route.dropInternal (Route.join [x, r]) config.internalPathKeys) := by
  have hlead : Route.trimSlashes (resolvePrefix config shared) = resolvePrefix config shared :=
    Route.trimSlashes_trimSlashes _
  rw [routeArgument_belowConstant hname hlast hx, routeArgument_plain hx hkind, routeTemplate,
    routeTemplate, hlead]
  exact Route.dropPrefix_eq_iff hlead (Route.joined_dropInternal _ _) (Route.joined_dropInternal _ _)
    (Route.joined_dropInternal _ _)
    (Route.segments_dropInternal_behind hx hr config.internalPathKeys hholes)

/-- A prefix that holds a placeholder of an internal key. -/
def tenantConstants : Constants := [("API_PREFIX".toList, "rest/:orgCode/api".toList)]

theorem routeTemplate_behind_tenant :
    '}' ∉ ({} : Config).prefixConstant ∧
      lastName ({} : Config).prefixConstant = ({} : Config).prefixConstant ∧
      Template.endsInside false (resolvePrefix {} tenantConstants) = false ∧
      routeTemplate {} (resolvePrefix {} tenantConstants)
          (routeArgument (some (declared .template (belowConstant ({} : Config).prefixConstant "x".toList)))
            (resolvePrefix {} tenantConstants) ({} : Config).prefixConstant []) "r".toList
        ≠ routeTemplate {} (resolvePrefix {} tenantConstants)
          (routeArgument (some (declared .string "x".toList))
            (resolvePrefix {} tenantConstants) ({} : Config).prefixConstant []) "r".toList := by
  have hx : Route.Plain "x".toList := ⟨by decide, List.forall_mem_singleton.2 (by decide)⟩
  have hr : Route.Plain "r".toList := ⟨by decide, List.forall_mem_singleton.2 (by decide)⟩
  have hname : '}' ∉ ({} : Config).prefixConstant := by decide
  have hlast : lastName ({} : Config).prefixConstant = ({} : Config).prefixConstant := by decide
  have hholes : Template.endsInside false (resolvePrefix {} tenantConstants) = false := by decide
  refine ⟨hname, hlast, hholes, fun heq => ?_⟩
  have hleft := (routeTemplate_behind_iff hname hlast hx hr tenantConstants [] (.inl hholes) (.inl rfl)).1 heq
  rcases hleft with hnil | ⟨hsame, -⟩
  · exact absurd hnil (by decide)
  · exact absurd hsame (by decide)

end NestClient
