import NestClient.Proofs.Route.Transparent

/-! Route templates as arithmetic on segments, for fragments without holes and blanks.

* `segments_dropInternal_plain`: the internal keys take segments away and change none.
* `segments_dropPrefix_join`: a prefix in normal form is taken from the front of the segments.
* `routeTemplate_segments`: the route template, segment by segment. -/

namespace NestClient

namespace Route

variable {t : Text} {keys parts : List Text}

/-! ## Segment arithmetic -/

/-- The segments that name an internal key, and the bare colon. -/
def internalSegments (keys : List Text) : List Text := [':'] :: keys.map (':' :: ·)

/-- The segments below a lead if they begin with all of it, and otherwise all of them. -/
def below (lead pieces : List Text) : List Text :=
  if lead <+: pieces then pieces.drop lead.length else pieces

theorem isInternalSegment_iff {segment : Text} :
    isInternalSegment keys segment = true ↔ segment ∈ internalSegments keys := by
  rw [internalSegments, List.mem_cons, List.mem_map]
  cases segment with
  | nil => simp [isInternalSegment]
  | cons c key =>
    by_cases hc : c = ':'
    · subst hc
      simp [isInternalSegment]
    · have hother : isInternalSegment keys (c :: key) = false := by
        unfold isInternalSegment
        split
        · next heq => exact absurd (List.cons.inj heq).1 hc
        · rfl
      simp [hother, hc, Ne.symm hc]

/-! ## Plain fragments -/

theorem plain_of_all (hholes : ¬Template.opening <:+: t) (hblanks : (t.all fun c => !isBlank c) = true) :
    Plain t :=
  ⟨hholes, fun c hc => by simpa using List.all_eq_true.1 hblanks c hc⟩

/-- Joining brings in no blank and opens no hole. -/
theorem plain_join (h : ∀ part ∈ parts, Plain part) : Plain (join parts) := by
  constructor
  · intro hin
    obtain ⟨part, hpart, hpiece⟩ := infix_of_infix_join (by decide) (by decide) hin
    exact (h part hpart).holes hpiece
  · exact not_blank_of_mem_join fun part hpart => (h part hpart).blanks

theorem segments_join_plain (h : ∀ part ∈ parts, Plain part) :
    segments (join parts) = parts.flatMap segments :=
  segments_join_of_not_blank fun part hpart => (h part hpart).blanks

/-- Between the slashes of a plain route stand its segments and nothing else. -/
theorem flatMap_segments_split (h : Plain t) (p : Text → Bool) :
    ((Text.split '/' t).filter p).flatMap (fun piece => segments (Text.trim piece))
      = (segments t).filter p := by
  have hpiece : ∀ piece ∈ Text.split '/' t,
      segments (Text.trim piece) = if piece.isEmpty then [] else [piece] := by
    intro piece hpiece
    rw [(Text.trimmed_of_not_blank (h.blanks_of_mem_split piece hpiece)).trim_eq,
      segments_of_not_mem (Text.not_mem_of_mem_split hpiece)]
  rw [segments]
  revert hpiece
  induction Text.split '/' t with
  | nil => simp
  | cons piece more ih =>
    intro hpiece
    have hfirst := hpiece piece List.mem_cons_self
    have hmore := ih fun other hother => hpiece other (List.mem_cons_of_mem piece hother)
    by_cases hp : p piece = true <;> by_cases hempty : piece.isEmpty = true <;>
      simp [hp, hempty, hfirst, hmore]

/-- The internal keys take their segments away from a plain route and leave the others as they are. -/
theorem segments_dropInternal_plain (h : Plain t) : segments (dropInternal t keys)
    = (segments t).filter fun segment => segment ∉ internalSegments keys := by
  rw [dropInternal, Template.fill_of_no_hole h.holes, segments_join, flatMap_segments_split h]
  apply List.filter_congr
  intro segment _
  have hiff : isInternalSegment keys segment = true ↔ segment ∈ internalSegments keys :=
    isInternalSegment_iff
  by_cases hin : segment ∈ internalSegments keys
  · simp [hin, hiff.2 hin]
  · simp [hin, mt hiff.1 hin]

/-! ## The prefix of all routes -/

theorem segments_of_join (h : ∀ s ∈ parts, s ≠ [] ∧ '/' ∉ s) :
    segments (Text.join ['/'] parts) = parts := by
  rw [segments_textJoin]
  induction parts with
  | nil => rfl
  | cons s more ih =>
    obtain ⟨hs, hmore⟩ := List.forall_mem_cons.1 h
    rw [List.flatMap_cons, ih hmore, segments_of_not_mem hs.2, if_neg (by simpa using hs.1),
      List.singleton_append]

theorem head?_join_of_segments (h : ∀ s ∈ parts, s ≠ [] ∧ '/' ∉ s) :
    (Text.join ['/'] parts).head? ≠ some '/' := by
  cases parts with
  | nil => simp [Text.join]
  | cons s more =>
    obtain ⟨hs, -⟩ := List.forall_mem_cons.1 h
    obtain ⟨c, rest, rfl⟩ := List.exists_cons_of_ne_nil hs.1
    have hc : c ≠ '/' := fun heq => hs.2 (heq ▸ List.mem_cons_self)
    cases more <;> simp [Text.join, List.intercalate, hc]

theorem singleSlashes_of_not_mem (h : '/' ∉ t) : SingleSlashes t := by
  apply List.Pairwise.isChain
  apply List.pairwise_of_forall_mem_list
  rintro a ha b - ⟨rfl, -⟩
  exact h ha

theorem singleSlashes_join (h : ∀ s ∈ parts, s ≠ [] ∧ '/' ∉ s) :
    SingleSlashes (Text.join ['/'] parts) := by
  induction parts with
  | nil => exact List.isChain_nil
  | cons s more ih =>
    obtain ⟨hs, hmore⟩ := List.forall_mem_cons.1 h
    cases more with
    | nil =>
      rw [Text.join_singleton]
      exact singleSlashes_of_not_mem hs.2
    | cons second more =>
      have hlast : ∀ c ∈ s.getLast?, c ≠ '/' := fun c hc heq => hs.2 (heq ▸ List.mem_of_getLast? hc)
      rw [Text.join_cons_cons, SingleSlashes, List.singleton_append, List.isChain_append,
        List.isChain_cons]
      refine ⟨singleSlashes_of_not_mem hs.2, ⟨fun c hc hslash => ?_, ih hmore⟩, fun c hc d _ hslash => ?_⟩
      · exact head?_join_of_segments hmore (hslash.2 ▸ hc)
      · exact hlast c hc hslash.1

theorem joined_of_segments (h : ∀ s ∈ parts, s ≠ [] ∧ '/' ∉ s) :
    Joined (Text.join ['/'] parts) := by
  refine ⟨singleSlashes_join h, ?_⟩
  rw [trimSlashes_eq (singleSlashes_join h), segments_of_join h]

theorem mem_segments {segment : Text} (h : segment ∈ segments t) : segment ≠ [] ∧ '/' ∉ segment := by
  obtain ⟨hpiece, hne⟩ := List.mem_filter.1 h
  exact ⟨by simpa using hne, Text.not_mem_of_mem_split hpiece⟩

/-- A prefix that is put together from segments is taken from the front of a route's segments, if they
begin with all of its own. -/
theorem segments_dropPrefix_join {route : Text} {lead : List Text} (hroute : Joined route)
    (hlead : ∀ s ∈ lead, s ≠ [] ∧ '/' ∉ s) :
    segments (dropPrefix route (Text.join ['/'] lead)) = below lead (segments route) := by
  have hjoined := joined_of_segments hlead
  have hsegments := segments_of_join hlead
  rw [below]
  split
  next hprefix =>
    obtain ⟨rest, hrest⟩ := hprefix
    rw [← hrest, List.drop_left]
    by_cases hnil : lead = []
    · subst hnil
      rw [segments_dropPrefix_of_not_leads hjoined.trimmed fun hleads => hleads.1 rfl, ← hrest]
      rfl
    · have hne : Text.join ['/'] lead ≠ [] := by
        intro heq
        rw [heq, segments_nil] at hsegments
        exact hnil hsegments.symm
      have hrestOk : ∀ s ∈ rest, s ≠ [] ∧ '/' ∉ s := fun s hs =>
        mem_segments (hrest ▸ List.mem_append_right lead hs)
      have hleads : Leads (Text.join ['/'] lead) route := by
        have hroutes : segments route
            = segments (Text.join ['/'] lead) ++ segments (Text.join ['/'] rest) := by
          rw [hsegments, segments_of_join hrestOk, hrest]
        exact leads_of_segments hjoined hne hroute hroutes
      have hbelow := segments_dropPrefix_of_leads hjoined.trimmed hleads
      rw [hsegments, ← hrest] at hbelow
      exact (List.append_cancel_left hbelow).symm
  next hprefix =>
    apply segments_dropPrefix_of_not_leads hjoined.trimmed
    intro hleads
    apply hprefix
    rw [segments_dropPrefix_of_leads hjoined.trimmed hleads, hsegments]
    exact List.prefix_append _ _

end Route

/-! ## The route template -/

/-- The segments of a route template: those of the base path and of the method's route in a row,
without the internal ones, below the prefix of all routes. -/
def templateSegments (keys lead : List Text) (base route : Text) : List Text :=
  Route.below lead
    ((Route.segments base ++ Route.segments route).filter fun segment =>
      segment ∉ Route.internalSegments keys)

/-- The template of a route without holes and blanks is known from the segments, and put together from
them with single slashes. -/
theorem routeTemplate_segments (config : Config) {base route : Text} (hbase : Route.Plain base)
    (hroute : Route.Plain route) {lead : List Text} (hlead : ∀ s ∈ lead, s ≠ [] ∧ '/' ∉ s) :
    Route.segments (routeTemplate config (Text.join ['/'] lead) base route)
        = templateSegments config.internalPathKeys lead base route ∧
      routeTemplate config (Text.join ['/'] lead) base route
        = Text.join ['/'] (templateSegments config.internalPathKeys lead base route) := by
  have hparts : ∀ part ∈ [base, route], Route.Plain part := by
    simp [hbase, hroute]
  have hjoined := Route.joined_of_segments hlead
  have hsegments : Route.segments (routeTemplate config (Text.join ['/'] lead) base route)
      = templateSegments config.internalPathKeys lead base route := by
    rw [routeTemplate, hjoined.trimmed, Route.segments_dropPrefix_join (Route.joined_dropInternal _ _) hlead,
      Route.segments_dropInternal_plain (Route.plain_join hparts), Route.segments_join_plain hparts,
      templateSegments, List.flatMap_cons, List.flatMap_singleton]
  refine ⟨hsegments, ?_⟩
  rw [← hsegments, routeTemplate, hjoined.trimmed]
  exact (Route.joined_dropPrefix hjoined.trimmed (Route.joined_dropInternal _ _).single).eq_join

/-- A tenant's placeholder is dropped and the prefix behind it is taken away. -/
theorem routeTemplate_segments_tenant :
    routeTemplate {} (Text.join ['/'] ["rest".toList, "api".toList]) "//rest/:orgCode/api/teams/".toList
        ":orgCodes//:/x".toList = "teams/:orgCodes/x".toList := by
  have hbase : Route.Plain "//rest/:orgCode/api/teams/".toList :=
    Route.plain_of_all (by decide) (by decide)
  have hroute : Route.Plain ":orgCodes//:/x".toList := Route.plain_of_all (by decide) (by decide)
  exact (routeTemplate_segments {} hbase hroute (by decide)).2.trans (by decide)

end NestClient
