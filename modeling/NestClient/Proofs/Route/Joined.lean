import Mathlib.Data.List.Chain
import Mathlib.Data.List.Infix
import NestClient.Proofs.Route.Segments
import NestClient.Proofs.Text.Template

/-! The text of a joined route: its segments with single slashes between them.

* `join_eq`: so joining is known from the segments of the fragments.
* `segments_dropInternal_append`: internal parts of two routes in a row are dropped from each.
* `segments_dropPrefix_of_leads`: what a lead leaves of the segments of a route. -/

namespace NestClient.Route

variable {t lead route : Text} {keys : List Text}

/-! ## Single slashes -/

/-- No two slashes stand in a row. -/
def SingleSlashes (t : Text) : Prop := t.IsChain fun a b => ¬(a = '/' ∧ b = '/')

theorem head?_collapse (t : Text) : (collapse t).head? = t.head? := by
  induction t with
  | nil => rfl
  | cons c rest ih =>
    rw [collapse]
    split
    next hslashes =>
      rw [Bool.and_eq_true, decide_eq_true_eq, decide_eq_true_eq] at hslashes
      rw [ih, hslashes.2, hslashes.1]
      rfl
    next => rfl

theorem singleSlashes_collapse (t : Text) : SingleSlashes (collapse t) := by
  induction t with
  | nil => exact List.isChain_nil
  | cons c rest ih =>
    rw [collapse]
    split
    next => exact ih
    next hslashes =>
      refine List.isChain_cons.2 ⟨fun d hd hboth => hslashes ?_, ih⟩
      rw [head?_collapse, hboth.2] at hd
      rw [Bool.and_eq_true, decide_eq_true_eq, decide_eq_true_eq]
      exact ⟨hboth.1, hd⟩

theorem tail_lengthenHead (c : Char) (pieces : List Text) :
    (Text.lengthenHead c pieces).tail = pieces.tail := by
  cases pieces <;> rfl

/-- Between single slashes, and before an end that is no slash, every piece holds something. -/
theorem ne_nil_of_mem_tail_split (hsingle : SingleSlashes t) (hlast : t.getLast? ≠ some '/') :
    ∀ piece ∈ (Text.split '/' t).tail, piece ≠ [] := by
  induction t with
  | nil => simp [Text.split]
  | cons c rest ih =>
    cases rest with
    | nil =>
      have hc : c ≠ '/' := fun heq => hlast (by rw [heq]; rfl)
      rw [Text.split, if_neg hc, tail_lengthenHead]
      simp [Text.split]
    | cons d rest =>
      obtain ⟨hfirst, hrest⟩ := List.isChain_cons_cons.1 hsingle
      have hmore := ih hrest (by rwa [List.getLast?_cons_cons] at hlast)
      rw [Text.split]
      split
      next hc =>
        -- The second character begins a piece.
        have hd : d ≠ '/' := fun heq => hfirst ⟨hc, heq⟩
        rw [List.tail_cons]
        rw [Text.split, if_neg hd] at hmore ⊢
        cases hsplit : Text.split '/' rest with
        | nil => exact absurd hsplit (Text.split_ne_nil '/' rest)
        | cons piece more =>
          rw [hsplit, Text.lengthenHead, List.tail_cons] at hmore
          rw [Text.lengthenHead, List.forall_mem_cons]
          exact ⟨List.cons_ne_nil d piece, hmore⟩
      next => rwa [tail_lengthenHead]

/-- Without a slash at either end such a text is put together from its segments. -/
theorem eq_join_segments (hsingle : SingleSlashes t) (hhead : t.head? ≠ some '/')
    (hlast : t.getLast? ≠ some '/') : t = Text.join ['/'] (segments t) := by
  cases t with
  | nil => rfl
  | cons c rest =>
    have hc : c ≠ '/' := fun heq => hhead (by rw [heq]; rfl)
    have htail := ne_nil_of_mem_tail_split hsingle hlast
    have hpieces : ∀ piece ∈ Text.split '/' (c :: rest), piece ≠ [] := by
      rw [Text.split, if_neg hc] at htail ⊢
      cases hsplit : Text.split '/' rest with
      | nil => exact absurd hsplit (Text.split_ne_nil '/' rest)
      | cons piece more =>
        rw [hsplit, Text.lengthenHead, List.tail_cons] at htail
        rw [Text.lengthenHead, List.forall_mem_cons]
        exact ⟨List.cons_ne_nil c piece, htail⟩
    have hsegments : segments (c :: rest) = Text.split '/' (c :: rest) := by
      rw [segments, List.filter_eq_self]
      intro piece hpiece
      simpa using hpieces piece hpiece
    rw [hsegments, Text.join_split]

theorem singleSlashes_trimSlashes (h : SingleSlashes t) : SingleSlashes (trimSlashes t) := by
  obtain ⟨front, back, ht, -, -⟩ := Text.exists_trimBy (· = '/') t
  exact List.IsChain.infix h ⟨front, back, by rw [List.append_assoc]; exact ht.symm⟩

theorem trimSlashes_eq (h : SingleSlashes t) : trimSlashes t = Text.join ['/'] (segments t) := by
  have hhead : (trimSlashes t).head? ≠ some '/' := fun hc => absurd (Text.head?_trimBy hc) (by simp)
  have hlast : (trimSlashes t).getLast? ≠ some '/' := fun hc => absurd (Text.getLast?_trimBy hc) (by simp)
  rw [← segments_trimSlashes]
  exact eq_join_segments (singleSlashes_trimSlashes h) hhead hlast

theorem trimSlashes_trimSlashes (t : Text) : trimSlashes (trimSlashes t) = trimSlashes t :=
  Text.trimBy_eq_self (fun _ hc => Text.head?_trimBy hc) fun _ hc => Text.getLast?_trimBy hc

/-! ## Joined routes -/

/-- The route has single slashes, and none at its ends. -/
structure Joined (route : Text) : Prop where
  single : SingleSlashes route
  trimmed : trimSlashes route = route

theorem Joined.eq_join (h : Joined route) : route = Text.join ['/'] (segments route) := by
  rw [← trimSlashes_eq h.single, h.trimmed]

theorem Joined.segments_inj {route' : Text} (h : Joined route) (h' : Joined route')
    (heq : segments route = segments route') : route = route' := by
  rw [h.eq_join, heq, ← h'.eq_join]

theorem joined_trimSlashes (h : SingleSlashes t) : Joined (trimSlashes t) :=
  ⟨singleSlashes_trimSlashes h, trimSlashes_trimSlashes t⟩

theorem joined_join (parts : List Text) : Joined (join parts) :=
  joined_trimSlashes (singleSlashes_collapse _)

theorem join_eq (parts : List Text) :
    join parts = Text.join ['/'] (parts.flatMap fun part => segments (Text.trim part)) := by
  rw [← segments_join]
  exact (joined_join parts).eq_join

theorem joined_dropInternal (route : Text) (keys : List Text) : Joined (dropInternal route keys) :=
  joined_join _

theorem infix_of_mem_segments {segment : Text} (h : segment ∈ segments t) : segment <:+: t :=
  Text.infix_of_mem_split (List.mem_filter.1 h).1

/-- What holds no slash and stands in a joined route stands in one of the fragments. -/
theorem infix_of_infix_join {part : Text} (hpart : '/' ∉ part) (hne : part ≠ []) {parts : List Text}
    (h : part <:+: join parts) : ∃ fragment ∈ parts, part <:+: fragment := by
  obtain ⟨before, after, heq⟩ := h
  rw [join_eq, List.append_assoc] at heq
  obtain ⟨segment, hsegment, lead, tail, rfl, -⟩ := Text.exists_mem_of_join hpart hne heq.symm
  obtain ⟨fragment, hfragment, hsegment⟩ := List.mem_flatMap.1 hsegment
  obtain ⟨front, back, htrim, -⟩ := Text.exists_trim fragment
  refine ⟨fragment, hfragment, List.IsInfix.trans ⟨lead, tail, ?_⟩ ((infix_of_mem_segments hsegment).trans
    ⟨front, back, ?_⟩)⟩
  · rw [List.append_assoc]
  · rw [List.append_assoc]
    exact htrim.symm

theorem not_blank_of_mem_join {parts : List Text} (h : ∀ part ∈ parts, ∀ c ∈ part, isBlank c = false) :
    ∀ c ∈ join parts, isBlank c = false := by
  intro c hc
  by_cases hslash : c = '/'
  · subst hslash
    decide
  · have hin : [c] <:+: join parts := (List.singleton_infix_iff _ _).2 hc
    have hsep : '/' ∉ [c] := by simpa using Ne.symm hslash
    obtain ⟨part, hpart, hpiece⟩ := infix_of_infix_join hsep (List.cons_ne_nil c []) hin
    exact h part hpart c ((List.singleton_infix_iff _ _).1 hpiece)

theorem segments_join_of_not_blank {parts : List Text}
    (h : ∀ part ∈ parts, ∀ c ∈ part, isBlank c = false) :
    segments (join parts) = parts.flatMap segments := by
  rw [segments_join]
  apply List.flatMap_congr
  intro part hpart
  rw [(Text.trimmed_of_not_blank (h part hpart)).trim_eq]

/-! ## Internal parts -/

theorem segments_dropInternal_append {s : Text} (ht : ¬Template.opening <:+: t)
    (h : Template.endsInside false s = false ∨ '}' ∉ t) :
    segments (dropInternal (s ++ '/' :: t) keys)
      = segments (dropInternal s keys) ++ segments (dropInternal t keys) := by
  have hopening : ¬Template.opening <:+: '/' :: t := by
    intro hin
    have hcases := (Text.infix_append_cons (s := []) (by decide)).1 hin
    exact hcases.elim (by decide) ht
  have hclosed : Template.endsInside false s = false ∨ '}' ∉ '/' :: t := by
    simpa using h
  unfold dropInternal
  rw [segments_join, segments_join, segments_join, Template.fill_append_cons (by decide) hopening hclosed,
    Template.fill_of_no_hole ht, Text.split_append_cons, List.filter_append, List.flatMap_append]

/-! ## Leads -/

/-- The route begins with all segments of the lead, which it has in this very form. -/
def Leads (lead route : Text) : Prop := lead ≠ [] ∧ (route = lead ∨ lead ++ ['/'] <+: route)

instance (lead route : Text) : Decidable (Leads lead route) :=
  inferInstanceAs (Decidable (_ ∧ _))

theorem dropPrefix_eq (hlead : trimSlashes lead = lead) (route : Text) :
    dropPrefix route lead = trimSlashes (if Leads lead route then route.drop lead.length else route) := by
  unfold dropPrefix
  dsimp only
  rw [hlead]
  congr 1
  apply if_congr _ rfl rfl
  rw [Leads, Bool.and_eq_true, Bool.or_eq_true, decide_eq_true_eq, List.isPrefixOf_iff_prefix,
    Bool.not_eq_true', List.isEmpty_eq_false_iff]

theorem joined_dropPrefix (hlead : trimSlashes lead = lead) (hroute : SingleSlashes route) :
    Joined (dropPrefix route lead) := by
  rw [dropPrefix_eq hlead]
  apply joined_trimSlashes
  split
  · exact List.IsChain.suffix hroute (List.drop_suffix _ _)
  · exact hroute

theorem segments_dropPrefix_of_leads (hlead : trimSlashes lead = lead) (h : Leads lead route) :
    segments route = segments lead ++ segments (dropPrefix route lead) := by
  rw [dropPrefix_eq hlead, if_pos h, segments_trimSlashes]
  rcases h.2 with rfl | ⟨below, rfl⟩
  · rw [List.drop_length, segments_nil, List.append_nil]
  · rw [List.append_assoc, List.drop_left, List.singleton_append, segments_append_cons,
      segments_slash_cons]

theorem segments_dropPrefix_of_not_leads (hlead : trimSlashes lead = lead) (h : ¬Leads lead route) :
    segments (dropPrefix route lead) = segments route := by
  rw [dropPrefix_eq hlead, if_neg h, segments_trimSlashes]

theorem Leads.joined (h : Leads lead route) (hlead : trimSlashes lead = lead) (hroute : Joined route) :
    Joined lead := by
  refine ⟨?_, hlead⟩
  rcases h.2 with rfl | hprefix
  · exact hroute.single
  · exact List.IsChain.prefix hroute.single ((List.prefix_append lead ['/']).trans hprefix)

theorem leads_of_segments {rest : Text} (hlead : Joined lead) (hne : lead ≠ []) (hroute : Joined route)
    (h : segments route = segments lead ++ segments rest) : Leads lead route := by
  refine ⟨hne, ?_⟩
  by_cases hrest : segments rest = []
  · rw [hrest, List.append_nil] at h
    exact .inl (hroute.segments_inj hlead h)
  · have hfront : segments lead ≠ [] := by
      intro hnil
      refine hne ?_
      rw [hlead.eq_join, hnil]
      rfl
    refine .inr ⟨Text.join ['/'] (segments rest), ?_⟩
    rw [hroute.eq_join, h, Text.join_append hfront hrest, ← hlead.eq_join, List.append_assoc]

/-- Whether a front of the route makes a difference to the lead that is dropped: none if the front is
empty, or if it is the lead itself and what follows does not begin with the lead once more. -/
theorem dropPrefix_eq_iff {front rest : Text} (hlead : trimSlashes lead = lead) (hroute : Joined route)
    (hfront : Joined front) (hrest : Joined rest)
    (h : segments route = segments front ++ segments rest) :
    dropPrefix route lead = dropPrefix rest lead ↔ front = [] ∨ front = lead ∧ ¬Leads lead rest := by
  by_cases hnil : front = []
  · rw [hnil, segments_nil, List.nil_append] at h
    rw [hroute.segments_inj hrest h]
    exact iff_of_true rfl (.inl hnil)
  have hne : segments front ≠ [] := by
    intro hempty
    rw [hfront.eq_join, hempty] at hnil
    exact hnil rfl
  have hlonger : ∀ tail : List Text, segments front ++ tail ≠ tail := fun _ heq =>
    hne (List.append_left_eq_self.1 heq)
  have hsegments : dropPrefix route lead = dropPrefix rest lead ↔
      segments (dropPrefix route lead) = segments (dropPrefix rest lead) :=
    ⟨congrArg segments,
      (joined_dropPrefix hlead hroute.single).segments_inj (joined_dropPrefix hlead hrest.single)⟩
  rw [hsegments, or_iff_right hnil]
  -- The lead may stand before what follows, before the whole route, before both or neither.
  by_cases hrestLed : Leads lead rest
  · have hshort := segments_dropPrefix_of_leads hlead hrestLed
    refine iff_of_false (fun heq => ?_) fun hright => hright.2 hrestLed
    by_cases hrouteLed : Leads lead route
    · have hlong := segments_dropPrefix_of_leads hlead hrouteLed
      refine hlonger (segments rest) ?_
      rw [← h, hlong, heq, ← hshort]
    · rw [segments_dropPrefix_of_not_leads hlead hrouteLed, h, hshort, ← List.append_assoc] at heq
      exact hne (List.append_eq_nil_iff.1 (List.append_left_eq_self.1 heq)).1
  · rw [segments_dropPrefix_of_not_leads hlead hrestLed, and_iff_left hrestLed]
    by_cases hrouteLed : Leads lead route
    · have hlong := segments_dropPrefix_of_leads hlead hrouteLed
      have hjoined := hrouteLed.joined hlead hroute
      rw [h] at hlong
      constructor
      · intro heq
        rw [heq] at hlong
        exact hfront.segments_inj hjoined (List.append_cancel_right hlong)
      · rintro rfl
        exact (List.append_cancel_left hlong).symm
    · rw [segments_dropPrefix_of_not_leads hlead hrouteLed, h]
      refine iff_of_false (hlonger _) ?_
      rintro rfl
      exact hrouteLed (leads_of_segments hfront hnil hroute h)

end NestClient.Route
