import NestClient.Proofs.Disk.Resolve

/-! The places that names lead past as long as they meet no link: what a change looks at on its way.

* `places`, `endPlace`: the locations after each name, and after the last one.
* `find?_of_places`: names whose places are directories lead to the last of these.
* `reach_of_not_places`: where one is none, the first such place ends the way. -/

namespace NestClient.Disk

/-- Where a name leads from a location, if it is no link. -/
def place (l : Location) (name : Text) : Location :=
  if name = ['.', '.'] then l.dropLast else l ++ [name]

/-- The locations that names lead to, one after the other. -/
def places (l : Location) : List Text → List Location
  | [] => []
  | name :: rest => place l name :: places (place l name) rest

/-- The location that names lead to in the end. -/
def endPlace (l : Location) (names : List Text) : Location := names.foldl place l

variable {d : Disk} {l v : Location} {anchor : Anchor} {front names rest : List Text} {name : Text}

/-! ## Places -/

theorem place_eq (h : name ≠ ['.', '.']) : place l name = l ++ [name] := if_neg h

theorem endPlace_cons : endPlace l (name :: rest) = endPlace (place l name) rest := rfl

theorem endPlace_append : endPlace l (names ++ rest) = endPlace (endPlace l names) rest :=
  List.foldl_append

theorem places_append : places l (names ++ rest) = places l names ++ places (endPlace l names) rest := by
  induction names generalizing l with
  | nil => rfl
  | cons name names ih => rw [List.cons_append, places, places, ih, endPlace_cons, List.cons_append]

theorem endPlace_mem (h : names ≠ []) : endPlace l names ∈ places l names := by
  obtain ⟨front, last, rfl⟩ := (List.eq_nil_or_concat names).resolve_left h
  rw [List.concat_eq_append, places_append, endPlace_append]
  exact List.mem_append_right _ List.mem_cons_self

/-- Names that do not lead up lead from location to location. -/
theorem mem_places_of_no_dots (h : ∀ n ∈ names, n ≠ ['.', '.']) :
    v ∈ places l names ↔ ∃ front, front ≠ [] ∧ front <+: names ∧ v = l ++ front := by
  induction names generalizing l with
  | nil =>
    constructor
    · intro hv
      cases hv
    · rintro ⟨front, hne, hpre, -⟩
      exact absurd (List.prefix_nil.1 hpre) hne
  | cons name rest ih =>
    have hrest : ∀ n ∈ rest, n ≠ ['.', '.'] := fun n hn => h n (List.mem_cons_of_mem _ hn)
    rw [places, place_eq (h name List.mem_cons_self), List.mem_cons, ih hrest]
    constructor
    · rintro (rfl | ⟨front, -, hpre, rfl⟩)
      · exact ⟨[name], by simp, List.prefix_append [name] rest, rfl⟩
      · exact ⟨name :: front, by simp, List.cons_prefix_cons.2 ⟨rfl, hpre⟩, by simp⟩
    · rintro ⟨front, hne, hpre, rfl⟩
      obtain ⟨first, more, rfl⟩ := List.exists_cons_of_ne_nil hne
      obtain ⟨rfl, hmore⟩ := List.cons_prefix_cons.1 hpre
      by_cases hnil : more = []
      · exact .inl (by rw [hnil])
      · exact .inr ⟨more, hnil, hmore, by simp⟩

/-- What leads to some names but the last leads to all of them and is less. -/
theorem prefix_concat_ne_iff {lead : List Text} :
    lead <+: names ++ [name] ∧ lead ≠ names ++ [name] ↔ lead <+: names := by
  rw [List.prefix_concat_iff]
  constructor
  · rintro ⟨heq | hpre, hne⟩
    · exact absurd heq hne
    · exact hpre
  · intro hpre
    have hlen := hpre.length_le
    refine ⟨.inr hpre, fun heq => ?_⟩
    rw [heq, List.length_append, List.length_singleton] at hlen
    omega

theorem endPlace_of_no_dots (h : ∀ n ∈ names, n ≠ ['.', '.']) : endPlace l names = l ++ names := by
  induction names generalizing l with
  | nil => rw [List.append_nil]; rfl
  | cons name rest ih =>
    rw [endPlace_cons, place_eq (h name List.mem_cons_self),
      ih fun n hn => h n (List.mem_cons_of_mem _ hn), List.append_assoc, List.singleton_append]

/-! ## Following names past directories -/

theorem stretch_append (hplaces : ∀ v ∈ places l names, d.get? v = some .directory)
    (followLast : Bool) :
    d.stretch followLast l (names ++ rest) = d.stretch followLast (endPlace l names) rest := by
  induction names generalizing l with
  | nil => rfl
  | cons name names ih =>
    have hfirst := hplaces _ List.mem_cons_self
    have hmore := ih fun v hv => hplaces v (List.mem_cons_of_mem _ hv)
    rw [endPlace_cons, ← hmore, List.cons_append, stretch]
    by_cases hdots : name = ['.', '.']
    · rw [if_pos hdots, place, if_pos hdots]
    · rw [place_eq hdots] at hfirst ⊢
      rw [if_neg hdots, hfirst]

theorem way_of_places (hplaces : ∀ v ∈ places l names, d.get? v = some .directory) :
    ∃ seen, Way d l names seen 0 (endPlace l names) .directory ∧ seen ⊆ places l names := by
  induction names generalizing l with
  | nil => exact ⟨[], .here l, List.nil_subset _⟩
  | cons name rest ih =>
    obtain ⟨seen, hway, hseen⟩ := ih fun v hv => hplaces v (List.mem_cons_of_mem _ hv)
    have hmore : seen ⊆ places l (name :: rest) := fun v hv => List.mem_cons_of_mem _ (hseen hv)
    rw [endPlace_cons]
    by_cases hdots : name = ['.', '.']
    · rw [place, if_pos hdots] at hway ⊢
      subst hdots
      exact ⟨seen, .up hway, hmore⟩
    · have hfirst := hplaces _ List.mem_cons_self
      have hmem : place l name ∈ places l (name :: rest) := List.mem_cons_self
      rw [place_eq hdots] at hfirst hway hmem ⊢
      exact ⟨_, .into hdots hfirst hway, List.cons_subset.2 ⟨hmem, hmore⟩⟩

theorem find?_of_places (hfront : d.find? ⟨anchor, front⟩ = some (l, .directory))
    (hplaces : ∀ v ∈ places l names, d.get? v = some .directory) :
    d.find? ⟨anchor, front ++ names⟩ = some (endPlace l names, .directory) := by
  obtain ⟨hanchor, seen, k, hway, hk⟩ := find?_eq_some_iff.1 hfront
  obtain ⟨more, hmore, -⟩ := way_of_places hplaces
  exact find?_eq_some_iff.2 ⟨hanchor, _, _, hway.append hmore, hk⟩

/-- Names that meet no link end at the last of their places. -/
theorem Way.eq_endPlace {seen : List Location} {k : Nat} {m : Location} {e : Entry}
    (hway : Way d l names seen k m e) (hlinks : ∀ v ∈ places l names, ∀ t, d.get? v ≠ some (.link t)) :
    m = endPlace l names := by
  induction hway with
  | here l => rfl
  | @up l rest _ _ _ _ _ ih =>
    have hplace : place l ['.', '.'] = l.dropLast := if_pos rfl
    rw [places, hplace] at hlinks
    rw [endPlace_cons, hplace]
    exact ih fun v hv => hlinks v (List.mem_cons_of_mem _ hv)
  | into hname _ _ ih =>
    rw [places, place_eq hname] at hlinks
    rw [endPlace_cons, place_eq hname]
    exact ih fun v hv => hlinks v (List.mem_cons_of_mem _ hv)
  | file hname _ =>
    rw [endPlace_cons, place_eq hname]
    rfl
  | through hname hget _ _ =>
    rw [places, place_eq hname] at hlinks
    exact absurd hget (hlinks _ List.mem_cons_self _)

/-- Where a place before the last name is no directory, the first such place ends the way. -/
theorem stretch_of_not_places (h : d.IsTree) (hl : d.get? l = some .directory) (hrest : rest ≠ [])
    (hlinks : ∀ v ∈ places l names, ∀ t, d.get? v ≠ some (.link t))
    (hnot : ¬∀ v ∈ places l names, d.get? v = some .directory) (followLast : Bool) :
    (d.stretch followLast l (names ++ rest) = .ends .lost ∧ ∃ v ∈ places l names, d.get? v = none) ∨
      d.stretch followLast l (names ++ rest) = .ends .blocked ∧
        ∃ v ∈ places l names, ∃ bytes, d.get? v = some (.file bytes) := by
  induction names generalizing l with
  | nil => exact absurd (by simp [places]) hnot
  | cons name names ih =>
    have hfirst : place l name ∈ places l (name :: names) := List.mem_cons_self
    have hmore : ∀ v ∈ places (place l name) names, v ∈ places l (name :: names) :=
      fun v hv => List.mem_cons_of_mem _ hv
    have hstill : (names ++ rest).isEmpty = false := by
      cases names <;> simp [hrest]
    rw [List.cons_append, stretch]
    by_cases hdir : d.get? (place l name) = some .directory
    · have hnot' : ¬∀ v ∈ places (place l name) names, d.get? v = some .directory := by
        intro hall
        refine hnot fun v hv => ?_
        rcases List.mem_cons.1 hv with rfl | hv
        · exact hdir
        · exact hall v hv
      have hone : ∀ v ∈ places l [name], d.get? v = some .directory :=
        fun v hv => List.mem_singleton.1 hv ▸ hdir
      have hnext : d.stretch followLast l (name :: (names ++ rest))
          = d.stretch followLast (place l name) (names ++ rest) :=
        stretch_append hone followLast
      rw [stretch] at hnext
      rw [hnext]
      refine (ih hdir (fun v hv => hlinks v (hmore v hv)) hnot').imp ?_ ?_
      · rintro ⟨hlost, v, hv, hnone⟩
        exact ⟨hlost, v, hmore v hv, hnone⟩
      · rintro ⟨hblocked, v, hv, hfile⟩
        exact ⟨hblocked, v, hmore v hv, hfile⟩
    · have hdots : name ≠ ['.', '.'] := by
        rintro rfl
        exact hdir (h.directory_dropLast hl)
      rw [if_neg hdots]
      rw [place_eq hdots] at hdir hfirst
      cases hget : d.get? (l ++ [name]) with
      | none =>
        refine .inl ⟨?_, _, hfirst, hget⟩
        dsimp only
        rw [hstill]
        rfl
      | some e =>
        cases e with
        | directory => exact absurd hget hdir
        | link t => exact absurd hget (hlinks _ hfirst t)
        | file bytes =>
          refine .inr ⟨?_, _, hfirst, bytes, hget⟩
          dsimp only
          rw [hstill]
          rfl

theorem reach_of_not_places (h : d.IsTree) (hfront : d.find? ⟨anchor, front⟩ = some (l, .directory))
    (hrest : rest ≠ []) (hlinks : ∀ v ∈ places l names, ∀ t, d.get? v ≠ some (.link t))
    (hnot : ¬∀ v ∈ places l names, d.get? v = some .directory) (followLast : Bool) :
    (d.reach followLast ⟨anchor, front ++ names ++ rest⟩ = .lost ∧
        ∃ v ∈ places l names, d.get? v = none) ∨
      d.reach followLast ⟨anchor, front ++ names ++ rest⟩ = .blocked ∧
        ∃ v ∈ places l names, ∃ bytes, d.get? v = some (.file bytes) := by
  have hl := h.get?_of_find? hfront
  obtain ⟨hanchor, seen, k, hway, hk⟩ := find?_eq_some_iff.1 hfront
  obtain ⟨n, hn⟩ : ∃ n, maxLinks + 1 - k = n + 1 := ⟨maxLinks - k, by omega⟩
  rw [reach, if_neg hanchor, List.append_assoc,
    hway.follow_append (by simp [hrest]) (Nat.lt_succ_of_le hk), hn, follow]
  rcases stretch_of_not_places h hl hrest hlinks hnot followLast with ⟨hlost, hnone⟩ | ⟨hblocked, hfile⟩
  · rw [hlost]
    exact .inl ⟨rfl, hnone⟩
  · rw [hblocked]
    exact .inr ⟨rfl, hfile⟩

end NestClient.Disk
