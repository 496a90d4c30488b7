import NestClient.Proofs.Disk.Empty
import NestClient.Proofs.Disk.Grow

/-! Directories without links in them, wherever links on the way lead.

* `exists_way_of_follow_snoc`: a path ends with a name in the directory that its other names lead to.
* `Plain.eq_of_find?`: below a directory without links different names lead to different entries.
* `plain_ensureDirectories`: what had to be made on the way of a path is a directory without links.
* `plain_emptyDirectory`: so is a directory that was emptied, unless this has cut off the way to it. -/

namespace NestClient

namespace Disk

variable {d d' : Disk} {anchor : Anchor} {front more : List Text} {name : Text} {l m v : Location}
  {seen : List Location} {k n : Nat} {e : Entry} {p : Path} {changed : Location → Prop}

/-! ## One more name -/

theorem exists_way_of_follow_snoc
    (hends : (d.follow false n l (front ++ [name])).problem? = none) :
    ∃ seen k m, Way d l front seen k m .directory ∧ k < n := by
  induction n generalizing l front with
  | zero => simp [follow, Destination.problem?] at hends
  | succ n ihn =>
    induction front generalizing l with
    | nil => exact ⟨[], 0, l, .here l, Nat.succ_pos n⟩
    | cons first rest ih =>
      rw [List.cons_append] at hends
      have hstill : (rest ++ [name]).isEmpty = false := by simp
      by_cases hfirst : first = ['.', '.']
      · subst hfirst
        rw [follow_up] at hends
        obtain ⟨seen, k, m, hway, hk⟩ := ih hends
        exact ⟨seen, k, m, .up hway, hk⟩
      · cases hget : d.get? (l ++ [first]) with
        | none =>
          rw [follow, stretch, if_neg hfirst, hget, hstill] at hends
          cases hends
        | some entry =>
          cases entry with
          | directory =>
            rw [follow_into hfirst hget] at hends
            obtain ⟨seen, k, m, hway, hk⟩ := ih hends
            exact ⟨_, k, m, .into hfirst hget hway, hk⟩
          | file bytes =>
            rw [follow, stretch, if_neg hfirst, hget, hstill] at hends
            cases hends
          | link target =>
            rw [follow_through hfirst hget (.inr (by simp)), ← List.append_assoc] at hends
            obtain ⟨seen, k, m, hway, hk⟩ := ihn hends
            exact ⟨_, k + 1, m, .through hfirst hget hway, by omega⟩

theorem exists_find?_of_reach_snoc (hname : name ≠ ['.', '.'])
    (hends : (d.reach false ⟨anchor, front ++ [name]⟩).problem? = none) :
    ∃ m, d.find? ⟨anchor, front⟩ = some (m, .directory) ∧
      d.reach false ⟨anchor, front ++ [name]⟩ = d.entryAt m name := by
  have hanchor : anchor ≠ .here := by
    rintro rfl
    cases hends
  have hfollow := hends
  rw [reach, if_neg hanchor] at hfollow
  obtain ⟨seen, k, m, hway, hk⟩ := exists_way_of_follow_snoc hfollow
  have hfront : d.find? ⟨anchor, front⟩ = some (m, .directory) :=
    find?_eq_some_iff.2 ⟨hanchor, seen, k, hway, Nat.le_of_lt_succ hk⟩
  exact ⟨m, hfront, reach_snoc hfront hname (by simp)⟩

theorem of_reach_snoc_absent {name' : Text} (hname : name ≠ ['.', '.'])
    (h : d.reach false ⟨anchor, front ++ [name]⟩ = .absent l name') :
    d.find? ⟨anchor, front⟩ = some (l, .directory) ∧ name' = name ∧ d.get? (l ++ [name]) = none := by
  obtain ⟨m, hfront, hentry⟩ := exists_find?_of_reach_snoc hname (by rw [h]; rfl)
  rw [h, entryAt] at hentry
  split at hentry
  next hnone =>
    cases hentry
    exact ⟨hfront, rfl, hnone⟩
  next => cases hentry

theorem of_reach_snoc_found (hname : name ≠ ['.', '.'])
    (h : d.reach false ⟨anchor, front ++ [name]⟩ = .found v e) :
    ∃ m, d.find? ⟨anchor, front⟩ = some (m, .directory) ∧ v = m ++ [name] := by
  obtain ⟨m, hfront, hentry⟩ := exists_find?_of_reach_snoc hname (by rw [h]; rfl)
  rw [h, entryAt] at hentry
  split at hentry
  next => cases hentry
  next =>
    cases hentry
    exact ⟨m, hfront, rfl⟩

/-- The names in front lead to a directory, and the others lead on from there. -/
theorem exists_way_of_find?_append (hp : d.find? ⟨anchor, front ++ more⟩ = some (v, e))
    (hmore : more ≠ []) : ∃ m seen k, d.find? ⟨anchor, front⟩ = some (m, .directory) ∧
      Way d m more seen k v e := by
  obtain ⟨hanchor, seen, k, hway, hk⟩ := find?_eq_some_iff.1 hp
  obtain ⟨seen₁, seen₂, k₁, k₂, m, h₁, h₂, -, rfl⟩ := hway.append_cases hmore
  exact ⟨m, seen₂, k₂, find?_eq_some_iff.2 ⟨hanchor, seen₁, k₁, h₁, by omega⟩, h₂⟩

theorem find?_lead {names : List Text} (hp : d.find? ⟨anchor, names⟩ = some (v, .directory))
    (hpre : front <+: names) : ∃ m, d.find? ⟨anchor, front⟩ = some (m, .directory) := by
  obtain ⟨more, rfl⟩ := hpre
  by_cases hmore : more = []
  · rw [hmore, List.append_nil] at hp
    exact ⟨v, hp⟩
  · obtain ⟨m, -, -, hfront, -⟩ := exists_way_of_find?_append hp hmore
    exact ⟨m, hfront⟩

/-! ## Directories without links -/

/-- The path leads to a directory, and no link stands below that. -/
def Plain (d : Disk) (p : Path) : Prop :=
  ∃ m, d.find? p = some (m, .directory) ∧ ∀ v, m <+: v → ∀ t, d.get? v ≠ some (.link t)

theorem Plain.grows (h : d.Plain p) (hgrows : Grows changed d d') : d'.Plain p := by
  obtain ⟨m, hfind, hlinks⟩ := h
  obtain ⟨e', hfind', rfl | ⟨-, old, new, hfile, -⟩⟩ := find?_grows hfind hgrows
  · exact ⟨m, hfind', fun v hv t hlink => hlinks v hv t (hgrows.link v t hlink)⟩
  · cases hfile

theorem Plain.snoc (h : d.Plain ⟨anchor, front⟩) (hname : name ≠ ['.', '.'])
    (hp : d.find? ⟨anchor, front ++ [name]⟩ = some (v, .directory)) :
    d.Plain ⟨anchor, front ++ [name]⟩ := by
  obtain ⟨m, hfront, hlinks⟩ := h
  obtain ⟨m', seen, k, hfront', hway⟩ := exists_way_of_find?_append hp (List.cons_ne_nil name [])
  obtain rfl : m = m' := by simpa using hfront.symm.trans hfront'
  have hv : v = endPlace m [name] := hway.eq_endPlace fun w hw =>
    hlinks w (by rw [List.mem_singleton.1 hw, place_eq hname]; exact List.prefix_append m [name])
  rw [endPlace_cons, place_eq hname] at hv
  refine ⟨v, hp, fun w hw => hlinks w (List.IsPrefix.trans ?_ hw)⟩
  rw [hv]
  exact List.prefix_append m [name]

/-- Below a directory without links names lead to the location that they say. -/
theorem eq_append_of_find? (hfront : d.find? ⟨anchor, front⟩ = some (m, .directory))
    (hlinks : ∀ v, m <+: v → ∀ t, d.get? v ≠ some (.link t)) (hmore : more ≠ [])
    (hdots : ∀ n ∈ more, n ≠ ['.', '.']) (hp : d.find? ⟨anchor, front ++ more⟩ = some (v, e)) :
    v = m ++ more := by
  obtain ⟨m', seen, k, hfront', hway⟩ := exists_way_of_find?_append hp hmore
  obtain rfl : m = m' := by simpa using hfront.symm.trans hfront'
  rw [← endPlace_of_no_dots hdots]
  refine hway.eq_endPlace fun w hw => hlinks w ?_
  -- the places of the names all lie below the directory
  obtain ⟨lead, -, -, rfl⟩ := (mem_places_of_no_dots hdots).1 hw
  exact List.prefix_append m lead

theorem Plain.eq_of_find? {more' : List Text} {e' : Entry} (h : d.Plain ⟨anchor, front⟩)
    (hne : more ≠ []) (hne' : more' ≠ []) (hdots : ∀ n ∈ more, n ≠ ['.', '.'])
    (hdots' : ∀ n ∈ more', n ≠ ['.', '.']) (hp : d.find? ⟨anchor, front ++ more⟩ = some (v, e))
    (hp' : d.find? ⟨anchor, front ++ more'⟩ = some (v, e')) : more = more' := by
  obtain ⟨m, hfront, hlinks⟩ := h
  have hv := eq_append_of_find? hfront hlinks hne hdots hp
  rw [eq_append_of_find? hfront hlinks hne' hdots' hp'] at hv
  exact (List.append_cancel_left hv).symm

/-- All that leads to a link is there. -/
def LinksRooted (d : Disk) : Prop :=
  ∀ v t, d.get? v = some (.link t) → ∀ u, u <+: v → d.get? u ≠ none

theorem IsTree.linksRooted (h : d.IsTree) : d.LinksRooted := by
  rintro v t hlink u ⟨more, rfl⟩
  by_cases hmore : more = []
  · rw [hmore, List.append_nil] at hlink
    simp [hlink]
  · simp [h.directory_of_append hmore hlink]

theorem LinksRooted.grows (h : d.LinksRooted) (hgrows : Grows changed d d') : d'.LinksRooted := by
  intro v t hlink u hu hnone
  obtain ⟨e, he⟩ := Option.ne_none_iff_exists'.1 (h v t (hgrows.link v t hlink) u hu)
  rcases hgrows.kept u e he with hsame | ⟨-, -, new, -, hnew⟩
  · rw [hnone] at hsame
    cases hsame
  · rw [hnone] at hnew
    cases hnew

end Disk

namespace DiskChange

open Disk Steps

variable {d d' d₀ : Disk} {p : Path} {anchor : Anchor} {front outer : List Text} {name : Text}
  {l : Location}

/-! ## Making directories -/

theorem makeDirectory_cases (p : Path) (d : Disk) :
    (∃ l name, d.reach false p = .absent l name ∧
        (makeDirectory p).run.run d = (.ok (), d.put (l ++ [name]) .directory)) ∨
      ∃ f, (makeDirectory p).run.run d = (.error f, d) ∧
        (f.problem = .missing → d.reach false p = .lost) := by
  rw [run_makeDirectory]
  cases d.reach false p with
  | absent l name => exact .inl ⟨l, name, rfl, rfl⟩
  | found => exact .inr ⟨_, rfl, fun h => by cases h⟩
  | lost => exact .inr ⟨_, rfl, fun _ => rfl⟩
  | blocked => exact .inr ⟨_, rfl, fun h => by cases h⟩
  | entangled => exact .inr ⟨_, rfl, fun h => by cases h⟩

/-- A directory that is there after all was there before, or its name was free. -/
theorem ensureDirectory_cases (h : (ensureDirectory p).run.run d = (.ok (), d')) :
    (d' = d ∧ ∃ m, d.find? p = some (m, .directory)) ∨
      ∃ l name, d.reach false p = .absent l name ∧ d' = d.put (l ++ [name]) .directory := by
  rw [run_ensureDirectory] at h
  rcases makeDirectory_cases p d with ⟨l, name, hreach, hrun⟩ | ⟨f, hrun, -⟩
  · rw [hrun] at h
    exact .inr ⟨l, name, hreach, (Prod.mk.inj h).2.symm⟩
  · rw [hrun] at h
    dsimp only at h
    split at h
    · cases h
    · next hthere =>
      rw [Bool.or_eq_true, not_or, Bool.not_eq_true', Bool.not_eq_false] at hthere
      obtain ⟨m, hm⟩ := Option.isSome_iff_exists.1 hthere.2
      exact .inl ⟨(Prod.mk.inj h).2.symm, m, directoryAt?_eq_some_iff.1 hm⟩

theorem ensureDirectory_snoc_cases (hname : name ≠ ['.', '.'])
    (h : (ensureDirectory ⟨anchor, front ++ [name]⟩).run.run d = (.ok (), d')) :
    (d' = d ∧ ∃ m, d.find? ⟨anchor, front ++ [name]⟩ = some (m, .directory)) ∨
      ∃ l, d.find? ⟨anchor, front⟩ = some (l, .directory) ∧ d.get? (l ++ [name]) = none ∧
        d' = d.put (l ++ [name]) .directory := by
  refine (ensureDirectory_cases h).imp_right ?_
  rintro ⟨l, name', hreach, rfl⟩
  obtain ⟨hfront, rfl, hnone⟩ := of_reach_snoc_absent hname hreach
  exact ⟨l, hfront, hnone, rfl⟩

theorem ensureDirectory_error {f : DiskFault}
    (h : (ensureDirectory p).run.run d = (.error f, d')) :
    d' = d ∧ (f.problem = .missing → d.reach false p = .lost) := by
  rw [run_ensureDirectory] at h
  rcases makeDirectory_cases p d with ⟨l, name, -, hrun⟩ | ⟨f, hrun, hlost⟩
  · rw [hrun] at h
    cases h
  · rw [hrun] at h
    dsimp only at h
    split at h
    · cases h
      exact ⟨rfl, hlost⟩
    · cases h

theorem find?_put_snoc (hfront : d.find? ⟨anchor, front⟩ = some (l, .directory))
    (hname : name ≠ ['.', '.']) (hnone : d.get? (l ++ [name]) = none) :
    (d.put (l ++ [name]) .directory).find? ⟨anchor, front ++ [name]⟩
      = some (l ++ [name], .directory) := by
  have hgrows : Grows (fun _ => False) d (d.put (l ++ [name]) .directory) :=
    .put_absent hnone (by simp)
  obtain ⟨e, hfront', rfl | ⟨hfalse, -⟩⟩ := find?_grows hfront hgrows
  · exact find?_snoc hfront' hname ((get?_put (by simp) _).trans (if_pos rfl))
  · exact hfalse.elim

theorem find?_ensureDirectory_snoc (hname : name ≠ ['.', '.'])
    (h : (ensureDirectory ⟨anchor, front ++ [name]⟩).run.run d = (.ok (), d')) :
    (∃ m, d.find? ⟨anchor, front⟩ = some (m, .directory)) ∧
      ∃ m, d'.find? ⟨anchor, front ++ [name]⟩ = some (m, .directory) := by
  rcases ensureDirectory_snoc_cases hname h with ⟨rfl, m, hfind⟩ | ⟨l, hfront, hnone, rfl⟩
  · exact ⟨find?_lead hfind (List.prefix_append front [name]), m, hfind⟩
  · exact ⟨⟨l, hfront⟩, _, find?_put_snoc hfront hname hnone⟩

/-- The last directory of a path has no link in it if it had to be made, or lies in a directory that has
none. -/
theorem plain_ensureDirectory_snoc (hrooted : d.LinksRooted) (hname : name ≠ ['.', '.'])
    (h : (ensureDirectory ⟨anchor, front ++ [name]⟩).run.run d = (.ok (), d'))
    (hbefore : d.Plain ⟨anchor, front⟩ ∨ d.find? ⟨anchor, front ++ [name]⟩ = none) :
    d'.Plain ⟨anchor, front ++ [name]⟩ := by
  rcases ensureDirectory_snoc_cases hname h with ⟨rfl, m, hfind⟩ | ⟨l, hfront, hnone, rfl⟩
  · rcases hbefore with hplain | hnone
    · exact hplain.snoc hname hfind
    · rw [hfind] at hnone
      cases hnone
  · refine ⟨l ++ [name], find?_put_snoc hfront hname hnone, fun v hv t hlink => ?_⟩
    -- a link below the new directory would have been there before it
    rw [get?_put (by simp)] at hlink
    split at hlink
    · cases hlink
    · exact hrooted v t hlink _ hv hnone

/-- Directories are made by making the last one, at once or after the others. -/
theorem ensureNames_cases (h : (ensureNames anchor (name :: outer)).run.run d = (.ok (), d')) :
    (ensureDirectory ⟨anchor, outer.reverse ++ [name]⟩).run.run d = (.ok (), d') ∨
      d.reach false ⟨anchor, outer.reverse ++ [name]⟩ = .lost ∧
        ∃ d₁, (ensureNames anchor outer).run.run d = (.ok (), d₁) ∧
          (ensureDirectory ⟨anchor, outer.reverse ++ [name]⟩).run.run d₁ = (.ok (), d') := by
  rw [ensureNames, run_tryCatch, List.reverse_cons] at h
  cases hfirst : (ensureDirectory ⟨anchor, outer.reverse ++ [name]⟩).run.run d with
  | mk result d₁ =>
    rw [hfirst] at h
    cases result with
    | ok a => exact .inl h
    | error f =>
      obtain ⟨rfl, hlost⟩ := ensureDirectory_error hfirst
      dsimp only at h
      split at h
      · cases h
      · next hmissing =>
        obtain ⟨_, d₂, houter, hlast⟩ := exists_of_bind_ok h
        exact .inr ⟨hlost (Decidable.not_not.1 hmissing), d₂, houter, hlast⟩

theorem find?_of_ensureNames (hdots : ∀ n ∈ outer, n ≠ ['.', '.'])
    (h : (ensureNames anchor outer).run.run d = (.ok (), d')) :
    ∃ m, d'.find? ⟨anchor, outer.reverse⟩ = some (m, .directory) := by
  cases outer with
  | nil =>
    rcases ensureDirectory_cases h with ⟨rfl, hfind⟩ | ⟨l, name, hreach, -⟩
    · exact hfind
    · unfold reach at hreach
      split at hreach <;> cases hreach
  | cons name outer =>
    have hname := hdots name List.mem_cons_self
    rw [List.reverse_cons]
    rcases ensureNames_cases h with h | ⟨-, d₁, -, h⟩
    · exact (find?_ensureDirectory_snoc hname h).2
    · exact (find?_ensureDirectory_snoc hname h).2

/-- A path that led nowhere leads to a directory without links once it has been made. -/
theorem plain_ensureNames (hrooted : d.LinksRooted) (hdots : ∀ n ∈ outer, n ≠ ['.', '.'])
    (h : (ensureNames anchor outer).run.run d = (.ok (), d')) (hpre : front <+: outer.reverse)
    (hnone : d.find? ⟨anchor, front⟩ = none) : d'.Plain ⟨anchor, front⟩ := by
  induction outer generalizing d' front with
  | nil =>
    obtain rfl : front = [] := List.prefix_nil.1 hpre
    rcases ensureDirectory_cases h with ⟨rfl, m, hfind⟩ | ⟨l, name, hreach, -⟩
    · rw [hnone] at hfind
      cases hfind
    · unfold reach at hreach
      split at hreach <;> cases hreach
  | cons name outer ih =>
    have hname := hdots name List.mem_cons_self
    have hdots' : ∀ n ∈ outer, n ≠ ['.', '.'] := fun n hn => hdots n (List.mem_cons_of_mem _ hn)
    rw [List.reverse_cons, List.prefix_concat_iff] at hpre
    rcases ensureNames_cases h with h | ⟨hlost, d₁, houter, hlast⟩
    · rcases hpre with rfl | hpre
      · exact plain_ensureDirectory_snoc hrooted hname h (.inr hnone)
      · -- the directory is made in one that is there, with all that leads to it
        obtain ⟨m, hm⟩ := (find?_ensureDirectory_snoc hname h).1
        obtain ⟨m', hm'⟩ := find?_lead hm hpre
        rw [hnone] at hm'
        cases hm'
    · have hgrows := @grows_ensureNames (fun _ => False) anchor outer d
      rw [houter] at hgrows
      rcases hpre with rfl | hpre
      · refine plain_ensureDirectory_snoc (hrooted.grows hgrows) hname hlast (.inl ?_)
        cases hfront : d.find? ⟨anchor, outer.reverse⟩ with
        | none => exact ih hdots' houter List.prefix_rfl hfront
        | some found =>
          -- the directory around it is there already, and then the way is not lost
          obtain ⟨m, e⟩ := found
          obtain ⟨m', hm'⟩ := find?_of_ensureNames hdots' houter
          obtain ⟨e', hfront', rfl | ⟨hfalse, -⟩⟩ := find?_grows hfront hgrows
          · rw [hm'] at hfront'
            cases hfront'
            rw [reach_snoc hfront hname (by simp), entryAt] at hlost
            split at hlost <;> cases hlost
          · exact hfalse.elim
      · have hafter := @grows_ensureDirectory (fun _ => False) ⟨anchor, outer.reverse ++ [name]⟩ d₁
        rw [hlast] at hafter
        exact (ih hdots' houter hpre hnone).grows hafter

theorem plain_ensureDirectories (hrooted : d.LinksRooted) (hdots : ∀ n ∈ p.names, n ≠ ['.', '.'])
    (h : (ensureDirectories p).run.run d = (.ok (), d')) (hpre : front <+: p.names)
    (hnone : d.find? ⟨p.anchor, front⟩ = none) : d'.Plain ⟨p.anchor, front⟩ := by
  refine plain_ensureNames hrooted (fun n hn => hdots n (List.mem_reverse.1 hn)) h ?_ hnone
  rw [List.reverse_reverse]
  exact hpre

/-! ## Emptying -/

theorem shrinks_clear (d : Disk) (l : Location) : Shrinks d (d.clear l) := by
  intro v e hget
  rw [get?_clear] at hget
  split at hget
  · cases hget
  · exact hget

theorem shrinks_erase (hl : l ≠ []) (d : Disk) : Shrinks d (d.erase l) := by
  intro v e hget
  rw [get?_erase hl] at hget
  split at hget
  · cases hget
  · exact hget

theorem remove_eq (p : Path) (d : Disk) : ∃ d₁, (d₁ = d ∨ ∃ l, d₁ = d.clear l) ∧
    (remove p).run.run d = (detach p).run.run d₁ := by
  rw [run_remove]
  cases d.reach false p with
  | found l e =>
    cases e with
    | directory => exact ⟨d.clear l, .inr ⟨l, rfl⟩, rfl⟩
    | file bytes => exact ⟨d, .inl rfl, rfl⟩
    | link t => exact ⟨d, .inl rfl, rfl⟩
  | absent => exact ⟨d, .inl rfl, rfl⟩
  | lost => exact ⟨d, .inl rfl, rfl⟩
  | blocked => exact ⟨d, .inl rfl, rfl⟩
  | entangled => exact ⟨d, .inl rfl, rfl⟩

theorem exists_of_detach (h : (detach p).run.run d = (.ok (), d')) :
    ∃ l e, d.reach false p = .found l e ∧ d' = d.erase l := by
  rw [run_detach] at h
  cases hreach : d.reach false p with
  | found l e =>
    rw [hreach] at h
    exact ⟨l, e, rfl, (Prod.mk.inj h).2.symm⟩
  | absent => rw [hreach] at h; cases h
  | lost => rw [hreach] at h; cases h
  | blocked => rw [hreach] at h; cases h
  | entangled => rw [hreach] at h; cases h

section

variable (hfront : d₀.find? ⟨anchor, front⟩ = some (l, .directory))

include hfront

/-- What is removed stands where the directory was found first, though less of it may be left. -/
theorem remove_snoc (h : d.IsTree) (hshrinks : Shrinks d₀ d) (hname : name ≠ ['.', '.'])
    (hrun : (remove ⟨anchor, front ++ [name]⟩).run.run d = (.ok (), d')) :
    d'.IsTree ∧ Shrinks d d' ∧ ∀ v, l ++ [name] <+: v → d'.get? v = none := by
  obtain ⟨d₁, hd₁, hdetach⟩ := remove_eq ⟨anchor, front ++ [name]⟩ d
  rw [hdetach] at hrun
  obtain ⟨htree, hcleared⟩ : d₁.IsTree ∧ Shrinks d d₁ := by
    rcases hd₁ with rfl | ⟨l, rfl⟩
    · exact ⟨h, fun _ _ hget => hget⟩
    · exact ⟨h.clear, shrinks_clear d l⟩
  obtain ⟨v, e, hreach, rfl⟩ := exists_of_detach hrun
  obtain ⟨m, hm, rfl⟩ := of_reach_snoc_found hname hreach
  have hfirst := find?_of_shrinks (hshrinks.trans hcleared) hm
  obtain rfl : l = m := by simpa using hfront.symm.trans hfirst
  have hne : l ++ [name] ≠ [] := by simp
  refine ⟨htree.erase hne, hcleared.trans (shrinks_erase hne d₁), fun v hv => ?_⟩
  rw [get?_erase hne, if_pos hv]

theorem removeAll_snoc (h : d.IsTree) (hshrinks : Shrinks d₀ d) {entries : List Text}
    (hdots : ∀ c ∈ entries, c ≠ ['.', '.'])
    (hrun : (entries.forM fun c => remove ⟨anchor, front ++ [c]⟩).run.run d = (.ok (), d')) :
    d'.IsTree ∧ Shrinks d d' ∧ ∀ c ∈ entries, ∀ v, l ++ [c] <+: v → d'.get? v = none := by
  induction entries generalizing d with
  | nil =>
    obtain rfl : d = d' := (Prod.mk.inj hrun).2
    exact ⟨h, fun _ _ hget => hget, fun c hc => by simp at hc⟩
  | cons c entries ih =>
    obtain ⟨_, d₁, hfirst, hrest⟩ := exists_of_bind_ok hrun
    obtain ⟨h₁, hshrinks₁, hgone⟩ :=
      remove_snoc hfront h hshrinks (hdots c List.mem_cons_self) hfirst
    obtain ⟨h', hshrinks', hgone'⟩ := ih h₁ (hshrinks.trans hshrinks₁)
      (fun c hc => hdots c (List.mem_cons_of_mem _ hc)) hrest
    refine ⟨h', hshrinks₁.trans hshrinks', fun c' hc' v hv => ?_⟩
    rcases List.mem_cons.1 hc' with rfl | hc'
    · refine Option.eq_none_iff_forall_ne_some.2 fun e hget => ?_
      have hbefore := hshrinks' v e hget
      rw [hgone v hv] at hbefore
      cases hbefore
    · exact hgone' c' hc' v hv

end

/-- A directory that is there has no link in it once it has been emptied, if it is still found. -/
theorem plain_emptyDirectory_found (h : d.IsTree) (hfind : d.find? p = some (l, .directory)) {n : Nat}
    (hrun : (emptyDirectory p).run.run d = (.ok n, d')) :
    d'.IsTree ∧ (d'.Plain p ∨ d'.find? p = none) := by
  rw [emptyDirectory_found hfind] at hrun
  obtain ⟨_, d₁, hremoved, hrest⟩ := exists_of_bind_ok hrun
  obtain rfl : d₁ = d' := (Prod.mk.inj hrest).2
  have hentries : ∀ c ∈ Text.sortBy Text.le (d.children l), c ≠ ['.', '.'] := by
    intro c hc
    obtain ⟨e, hget⟩ := (mem_sortBy_children h).1 hc
    exact (h.isEntryName hget (by simp)).ne_dots
  obtain ⟨htree, hshrinks, hgone⟩ := removeAll_snoc hfind h (fun _ _ hget => hget) hentries hremoved
  refine ⟨htree, ?_⟩
  by_cases hlost : d₁.find? p = none
  · exact .inr hlost
  obtain ⟨⟨m, e⟩, hfind'⟩ := Option.ne_none_iff_exists'.1 hlost
  obtain ⟨rfl, rfl⟩ : l = m ∧ Entry.directory = e := by
    simpa using hfind.symm.trans (find?_of_shrinks hshrinks hfind')
  refine .inl ⟨l, hfind', ?_⟩
  rintro _ ⟨below, rfl⟩ t hlink
  have hbefore := hshrinks _ _ hlink
  cases below with
  | nil =>
    rw [List.append_nil, h.get?_of_find? hfind] at hbefore
    cases hbefore
  | cons c more =>
    -- what stands below the directory stands below one of its entries, which are all gone
    have hc := (mem_sortBy_children h).2 (h.exists_get?_snoc hbefore)
    rw [hgone c hc _ ⟨more, by simp⟩] at hlink
    cases hlink

/-- Once it has been emptied, a path leads to a directory without links, or it has lost its way. -/
theorem plain_emptyDirectory (h : d.IsTree) (hdots : ∀ n ∈ p.names, n ≠ ['.', '.']) {n : Nat}
    (hrun : (emptyDirectory p).run.run d = (.ok n, d')) :
    d'.LinksRooted ∧ (d'.Plain p ∨ d'.find? p = none) := by
  cases hfind : d.find? p with
  | none =>
    rw [emptyDirectory_missing hfind] at hrun
    obtain ⟨_, d₁, hmade, hrest⟩ := exists_of_bind_ok hrun
    obtain rfl : d₁ = d' := (Prod.mk.inj hrest).2
    have hgrows := @grows_ensureDirectories (fun _ => False) p d
    rw [hmade] at hgrows
    exact ⟨h.linksRooted.grows hgrows,
      .inl (plain_ensureDirectories h.linksRooted hdots hmade List.prefix_rfl hfind)⟩
  | some found =>
    obtain ⟨l, e⟩ := found
    cases e with
    | directory => exact (plain_emptyDirectory_found h hfind hrun).imp_left IsTree.linksRooted
    | file bytes =>
      rw [run_emptyDirectory, hfind] at hrun
      cases hrun
    | link t =>
      rw [run_emptyDirectory, hfind] at hrun
      cases hrun

end DiskChange

end NestClient
