import NestClient.Proofs.Route.Joined

/-! Joining fragments of a route is putting their segments in a row.

* `Joined.not_prefix`, `Joined.not_suffix`, `Joined.not_infix`: where a joined route has no slash.
* `Grouping`: fragments of which some are joined before the others, at any depth.
* `Grouping.segments_route`: joining from the inside out keeps the segments of all fragments, if no
  fragment has a blank that joining could bring to an end.
* `join_concatenates`: so it makes no difference which neighbours are joined first. -/

namespace NestClient.Route

variable {t : Text}

/-! ## Slashes of a joined route -/

namespace Joined

theorem not_prefix (h : Joined t) : ¬['/'] <+: t := by
  rintro ⟨rest, hrest⟩
  have hhead : (trimSlashes t).head? = some '/' := by
    rw [h.trimmed, ← hrest]
    rfl
  exact absurd (Text.head?_trimBy hhead) (by decide)

theorem not_suffix (h : Joined t) : ¬['/'] <:+ t := by
  rintro ⟨front, hfront⟩
  have hlast : (trimSlashes t).getLast? = some '/' := by
    rw [h.trimmed, ← hfront, List.getLast?_concat]
  exact absurd (Text.getLast?_trimBy hlast) (by decide)

theorem not_infix (h : Joined t) : ¬['/', '/'] <:+: t := by
  intro hslashes
  have hpair : SingleSlashes ['/', '/'] := List.IsChain.infix h.single hslashes
  exact (List.isChain_cons_cons.1 hpair).1 ⟨rfl, rfl⟩

end Joined

/-! ## Groups of fragments -/

/-- Fragments of a route in groups. The members of a group are joined before what stands around it. -/
inductive Grouping where
  | fragment (t : Text)
  | group (members : List Grouping)

namespace Grouping

mutual

def fragments : Grouping → List Text
  | fragment t => [t]
  | group members => fragmentsOf members

def fragmentsOf : List Grouping → List Text
  | [] => []
  | first :: more => first.fragments ++ fragmentsOf more

end

mutual

/-- The route that a group is joined to, from the inside out. -/
def route : Grouping → Text
  | fragment t => t
  | group members => join (routesOf members)

def routesOf : List Grouping → List Text
  | [] => []
  | first :: more => first.route :: routesOf more

end

mutual

/-- What is joined on the way has no blanks at its ends, so that nothing is trimmed from it later. -/
theorem segments_route (g : Grouping) (h : ∀ t ∈ g.fragments, ∀ c ∈ t, isBlank c = false) :
    (∀ c ∈ g.route, isBlank c = false) ∧ segments g.route = g.fragments.flatMap segments := by
  cases g with
  | fragment t => exact ⟨h t (List.mem_singleton_self t), (List.flatMap_singleton segments t).symm⟩
  | group members =>
    obtain ⟨hblanks, hsegments⟩ := segments_routesOf members h
    exact ⟨not_blank_of_mem_join hblanks, (segments_join_of_not_blank hblanks).trans hsegments⟩

theorem segments_routesOf (members : List Grouping)
    (h : ∀ t ∈ fragmentsOf members, ∀ c ∈ t, isBlank c = false) :
    (∀ t ∈ routesOf members, ∀ c ∈ t, isBlank c = false) ∧
      (routesOf members).flatMap segments = (fragmentsOf members).flatMap segments := by
  cases members with
  | nil => exact ⟨by simp [routesOf], rfl⟩
  | cons first more =>
    rw [fragmentsOf, List.forall_mem_append] at h
    obtain ⟨hfirst, hfirstSegments⟩ := segments_route first h.1
    obtain ⟨hmore, hmoreSegments⟩ := segments_routesOf more h.2
    rw [routesOf, fragmentsOf, List.flatMap_cons, List.flatMap_append, hfirstSegments, hmoreSegments]
    exact ⟨List.forall_mem_cons.2 ⟨hfirst, hmore⟩, rfl⟩

end

end Grouping

/-- A joined route is the segments of its trimmed fragments in a row with single slashes between them, so
it has no slash at its ends and no two in a row. Where no fragment holds a blank, it comes out the same
whichever fragments are joined first. -/
theorem join_concatenates :
    (∀ parts, join parts = Text.join ['/'] (parts.flatMap fun part => segments (Text.trim part))) ∧
      (∀ parts, ¬['/'] <+: join parts ∧ ¬['/'] <:+ join parts ∧ ¬['/', '/'] <:+: join parts) ∧
      ∀ members, (∀ t ∈ (Grouping.group members).fragments, ∀ c ∈ t, isBlank c = false) →
        (Grouping.group members).route = join (Grouping.group members).fragments := by
  refine ⟨join_eq, fun parts => ?_, fun members hblanks => ?_⟩
  · have hjoined := joined_join parts
    exact ⟨hjoined.not_prefix, hjoined.not_suffix, hjoined.not_infix⟩
  · obtain ⟨-, hsegments⟩ := Grouping.segments_route (.group members) hblanks
    have hroute : Joined (Grouping.group members).route := joined_join _
    exact hroute.segments_inj (joined_join _) (hsegments.trans (segments_join_of_not_blank hblanks).symm)

/-- Slashes at all ends, a group of nothing and a group in a group. -/
def teamFragments : List Grouping := [.fragment "/teams/".toList,
  .group [.fragment [], .group [], .group [.fragment "//:id".toList, .fragment "a//b/".toList]],
  .fragment "/".toList]

theorem join_concatenates_team :
    (∀ t ∈ (Grouping.group teamFragments).fragments, ∀ c ∈ t, isBlank c = false) ∧
      (Grouping.group teamFragments).route = join (Grouping.group teamFragments).fragments ∧
      join (Grouping.group teamFragments).fragments = "teams/:id/a/b".toList := by
  have hall : ((Grouping.group teamFragments).fragments.all fun t => t.all fun c => !isBlank c) = true := by
    decide
  have hblanks : ∀ t ∈ (Grouping.group teamFragments).fragments, ∀ c ∈ t, isBlank c = false := by
    intro t ht c hc
    simpa using List.all_eq_true.1 (List.all_eq_true.1 hall t ht) c hc
  exact ⟨hblanks, join_concatenates.2.2 _ hblanks, by decide +kernel⟩

/-- A blank behind a slash is trimmed only if the fragment is joined twice. -/
example : join ["/ a".toList] = " a".toList ∧ join [join ["/ a".toList]] = "a".toList := by decide

end NestClient.Route
