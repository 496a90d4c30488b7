import NestClient.Proofs.Disk.Change
import NestClient.Proofs.Disk.Scan

/-! Where a directory is or can be made.

* `Enters`: a path leads to a directory and passes nothing below it on the way. It does so on every disk
  that differs below the directory only.
* `Site`: the path enters a directory, or goes on by plain names from a directory that has no entry for
  the first of them. -/

namespace NestClient.Disk

/-- The path leads to a directory from without: it passes nothing below that. -/
structure Enters (d : Disk) (p : Path) (l : Location) : Prop where
  find : d.find? p = some (l, .directory)
  apart : ∀ v, d.Passes p v → l <+: v → v = l

/-- The directory of the path is at the location, or is absent and would come to be there. -/
inductive Site (d : Disk) (p : Path) (l : Location) : Prop where
  | there : d.Enters p l → Site d p l
  | absent {front more : List Text} {name : Text} {m : Location} : p.names = front ++ name :: more →
    d.find? ⟨p.anchor, front⟩ = some (m, .directory) → d.get? (m ++ [name]) = none →
    (∀ n ∈ name :: more, IsEntryName n) → l = m ++ name :: more → Site d p l

variable {d d' : Disk} {p : Path} {anchor : Anchor} {front names : List Text} {l m : Location}

/-! ## Entering a directory -/

theorem Way.get?_of_mem_seen {seen : List Location} {k : Nat} {e : Entry}
    (hway : Way d l names seen k m e) {v : Location} (hv : v ∈ seen) : d.get? v ≠ none := by
  induction hway with
  | here => cases hv
  | up _ ih => exact ih hv
  | into _ hget _ ih =>
    rcases List.mem_cons.1 hv with rfl | hv
    · simp [hget]
    · exact ih hv
  | file _ hget =>
    rw [List.mem_singleton.1 hv]
    simp [hget]
  | through _ hget _ ih =>
    rcases List.mem_cons.1 hv with rfl | hv
    · simp [hget]
    · exact ih hv

theorem get?_of_passes {v : Location} (hv : d.Passes p v) : d.get? v ≠ none := by
  obtain ⟨seen, k, m, e, hway, hmem⟩ := hv
  exact hway.get?_of_mem_seen hmem

theorem passes_of_shrinks (h : Shrinks d' d) {e : Entry} (hp : d.find? p = some (m, e)) {v : Location}
    (hv : d'.Passes p v) : d.Passes p v := by
  obtain ⟨seen', k', m', e', hway', hmem⟩ := hv
  obtain ⟨-, seen, k, hway, -⟩ := find?_eq_some_iff.1 hp
  obtain ⟨rfl, -⟩ := hway'.functional (way_of_shrinks h hway)
  exact ⟨_, k, m, e, hway, hmem⟩

theorem Enters.congr (hp : d.Enters p l) (hsame : ∀ v, (l <+: v → v = l) → d'.get? v = d.get? v) :
    d'.Enters p l := by
  have hpasses : ∀ v, d.Passes p v → d.get? v = d'.get? v :=
    fun v hv => (hsame v (hp.apart v hv)).symm
  refine ⟨find?_congr hp.find hpasses, ?_⟩
  rintro v ⟨seen', k', m', e', hway', hv⟩ hpre
  obtain ⟨-, seen, k, hway, -⟩ := find?_eq_some_iff.1 hp.find
  have hsame := hway.congr fun v hv => hpasses v ⟨seen, k, l, _, hway, hv⟩
  obtain ⟨rfl, -⟩ := hway'.functional hsame
  exact hp.apart v ⟨seen', k, l, _, hway, hv⟩ hpre

/-- A path that goes on by plain names from a directory enters one if it has not been at or below that
before. -/
theorem IsTree.enters_append (h : d.IsTree) (hfront : d.find? ⟨anchor, front⟩ = some (m, .directory))
    (hapart : ∀ v, d.Passes ⟨anchor, front⟩ v → ¬m ++ names <+: v)
    (hdir : d.get? (m ++ names) = some .directory) :
    d.Enters ⟨anchor, front ++ names⟩ (m ++ names) := by
  obtain ⟨hanchor, seen, k, hway, hk⟩ := find?_eq_some_iff.1 hfront
  obtain ⟨more, hmore, hlead⟩ := h.way_append hdir (by simp) fun _ => rfl
  have hall := hway.append hmore
  refine ⟨find?_eq_some_iff.2 ⟨hanchor, _, _, hall, hk⟩, ?_⟩
  rintro v ⟨seen', k', m', e', hway', hv⟩ hpre
  obtain ⟨rfl, -⟩ := hway'.functional hall
  rcases List.mem_append.1 hv with hv | hv
  · exact absurd hpre (hapart v ⟨seen, k, m, _, hway, hv⟩)
  · exact (hlead v hv).eq_of_length_le hpre.length_le

theorem IsTree.enters (h : d.IsTree) (hanchor : p.anchor ≠ .here)
    (hdir : d.get? p.names = some .directory) : d.Enters p p.names := by
  refine h.enters_append (m := []) (find?_root hanchor) ?_ hdir
  rintro v ⟨seen, k, m, e, hway, hv⟩
  cases hway
  cases hv

/-! ## Sites -/

theorem IsTree.directory_of_prefix (h : d.IsTree) (hdir : d.get? l = some .directory) {v : Location}
    (hv : v <+: l) : d.get? v = some .directory := by
  obtain ⟨more, rfl⟩ := hv
  by_cases hnil : more = []
  · rw [hnil, List.append_nil] at hdir
    exact hdir
  · exact h.directory_of_append hnil hdir

theorem IsTree.get?_of_free (h : d.IsTree) {name : Text} (hfree : d.get? (m ++ [name]) = none)
    (more : List Text) : d.get? (m ++ name :: more) = none := by
  by_cases hnil : more = []
  · rw [hnil, hfree]
  · rw [List.append_cons]
    exact h.get?_eq_none_of_prefix (by simp [hfree]) hnil

/-- What leads to the location of a site, and the location itself, is a directory or absent. -/
theorem Site.passable (h : d.IsTree) (hsite : d.Site p l) {v : Location} (hv : v <+: l) :
    d.Passable v := by
  cases hsite with
  | there hp => exact .inr (h.directory_of_prefix (h.get?_of_find? hp.find) hv)
  | @absent front more name m _ hfront hfree _ hl =>
    rw [hl] at hv
    rcases List.prefix_or_prefix_of_prefix hv (List.prefix_append m _) with hv' | ⟨back, rfl⟩
    · exact .inr (h.directory_of_prefix (h.get?_of_find? hfront) hv')
    · rw [List.prefix_append_right_inj] at hv
      cases back with
      | nil =>
        rw [List.append_nil]
        exact .inr (h.get?_of_find? hfront)
      | cons first back =>
        obtain ⟨rfl, -⟩ := List.cons_prefix_cons.1 hv
        exact .inl (h.get?_of_free hfree back)

end NestClient.Disk
