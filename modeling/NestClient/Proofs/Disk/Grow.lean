import NestClient.Proofs.Disk.Change
import NestClient.Proofs.Disk.Way

/-! Changes that take nothing away.

* `Grows`: all entries stay, save that files at some locations get other bytes, and no link comes into
  being.
* `find?_grows`: a path still leads to where it led.
* `grows_ensureDirectories`, `grows_writeBytes`: making directories and writing files are such changes,
  and a file that was written is found. -/

namespace NestClient

namespace Disk

/-- All entries stay as they are, but files at some locations may hold other bytes. What comes into
being is no link. -/
structure Grows (changed : Location → Prop) (d d' : Disk) : Prop where
  kept : ∀ v e, d.get? v = some e →
    d'.get? v = some e ∨ changed v ∧ ∃ old new, e = .file old ∧ d'.get? v = some (.file new)
  link : ∀ v t, d'.get? v = some (.link t) → d.get? v = some (.link t)

variable {d d' d'' : Disk} {changed : Location → Prop} {l m v : Location}
  {names rest : List Text} {seen : List Location} {k : Nat} {e : Entry} {name : Text}
  {bytes : List UInt8}

namespace Grows

theorem refl (changed : Location → Prop) (d : Disk) : Grows changed d d :=
  ⟨fun _ _ h => .inl h, fun _ _ h => h⟩

theorem trans (h : Grows changed d d') (h' : Grows changed d' d'') : Grows changed d d'' where
  kept v e hget := by
    rcases h.kept v e hget with hsame | ⟨hv, old, new, rfl, hnew⟩
    · exact h'.kept v e hsame
    · rcases h'.kept v _ hnew with hsame | ⟨-, _, new', -, hnew'⟩
      · exact .inr ⟨hv, old, new, rfl, hsame⟩
      · exact .inr ⟨hv, old, new', rfl, hnew'⟩
  link v t hget := h.link v t (h'.link v t hget)

theorem mono {changed' : Location → Prop} (h : Grows changed d d') (hall : ∀ v, changed v → changed' v) :
    Grows changed' d d' :=
  ⟨fun v e hget => (h.kept v e hget).imp_right (And.imp_left (hall v)), h.link⟩

theorem put_absent (hnone : d.get? v = none) {e : Entry} (he : ∀ t, e ≠ .link t) :
    Grows changed d (d.put v e) := by
  have hv : v ≠ [] := by
    rintro rfl
    cases hnone
  constructor
  · intro w x hget
    refine .inl ?_
    rw [get?_put hv, if_neg, hget]
    rintro rfl
    rw [hnone] at hget
    cases hget
  · intro w t hget
    rw [get?_put hv] at hget
    split at hget
    · exact absurd (Option.some.inj hget) (he t)
    · exact hget

theorem put_file {old : List UInt8} (hfile : d.get? v = some (.file old)) (new : List UInt8) :
    Grows (· = v) d (d.put v (.file new)) := by
  have hv : v ≠ [] := by
    rintro rfl
    cases hfile
  constructor
  · intro w x hget
    rw [get?_put hv]
    by_cases hw : w = v
    · subst hw
      rw [hfile] at hget
      exact .inr ⟨rfl, old, new, (Option.some.inj hget).symm, if_pos rfl⟩
    · rw [if_neg hw]
      exact .inl hget
  · intro w t hget
    rw [get?_put hv] at hget
    split at hget
    · cases hget
    · exact hget

end Grows

/-! ## Ways through a disk that grows -/

/-- What names lead to stays where it is. -/
theorem Way.grows (hway : Way d l names seen k m e) (h : Grows changed d d') :
    ∃ e', Way d' l names seen k m e' ∧
      (e' = e ∨ changed m ∧ ∃ old new, e = .file old ∧ e' = .file new) := by
  induction hway with
  | here l => exact ⟨_, .here l, .inl rfl⟩
  | up _ ih =>
    obtain ⟨e', hway', he'⟩ := ih
    exact ⟨e', .up hway', he'⟩
  | into hname hget _ ih =>
    obtain ⟨e', hway', he'⟩ := ih
    rcases h.kept _ _ hget with hget' | ⟨-, _, _, hfile, -⟩
    · exact ⟨e', .into hname hget' hway', he'⟩
    · cases hfile
  | file hname hget =>
    rcases h.kept _ _ hget with hget' | ⟨hchanged, old, new, hfile, hnew⟩
    · exact ⟨_, .file hname hget', .inl rfl⟩
    · exact ⟨_, .file hname hnew, .inr ⟨hchanged, old, new, hfile, rfl⟩⟩
  | through hname hget _ ih =>
    obtain ⟨e', hway', he'⟩ := ih
    rcases h.kept _ _ hget with hget' | ⟨-, _, _, hfile, -⟩
    · exact ⟨e', .through hname hget' hway', he'⟩
    · cases hfile

theorem Way.get?_file (hway : Way d l names seen k m (.file bytes)) :
    d.get? m = some (.file bytes) := by
  generalize hfile : Entry.file bytes = e at hway
  induction hway with
  | here => cases hfile
  | up _ ih => exact ih hfile
  | into _ _ _ ih => exact ih hfile
  | file _ hget => exact hget
  | through _ _ _ ih => exact ih hfile

theorem get?_of_find?_file {p : Path} (hp : d.find? p = some (m, .file bytes)) :
    d.get? m = some (.file bytes) := by
  obtain ⟨-, seen, k, hway, -⟩ := find?_eq_some_iff.1 hp
  exact hway.get?_file

theorem find?_grows {p : Path} (hp : d.find? p = some (m, e)) (h : Grows changed d d') :
    ∃ e', d'.find? p = some (m, e') ∧
      (e' = e ∨ changed m ∧ ∃ old new, e = .file old ∧ e' = .file new) := by
  obtain ⟨hanchor, seen, k, hway, hk⟩ := find?_eq_some_iff.1 hp
  obtain ⟨e', hway', he'⟩ := hway.grows h
  exact ⟨e', find?_eq_some_iff.2 ⟨hanchor, seen, k, hway', hk⟩, he'⟩

/-! ## Names that are still free -/

theorem get?_of_stretch_absent {followLast : Bool}
    (h : d.stretch followLast l names = .ends (.absent v name)) : d.get? (v ++ [name]) = none := by
  induction names generalizing l with
  | nil => simp [stretch] at h
  | cons first rest ih =>
    rw [stretch] at h
    split at h
    · exact ih h
    · split at h
      next hget =>
        split at h
        · simp only [Stretch.ends.injEq, Destination.absent.injEq] at h
          obtain ⟨rfl, rfl⟩ := h
          exact hget
        · simp at h
      next => exact ih h
      next => split at h <;> simp at h
      next => split at h <;> simp at h

theorem get?_of_follow_absent {followLast : Bool} {n : Nat}
    (h : d.follow followLast n l names = .absent v name) : d.get? (v ++ [name]) = none := by
  induction n generalizing l names with
  | zero => simp [follow] at h
  | succ n ih =>
    rw [follow] at h
    split at h
    next hstretch =>
      subst h
      exact get?_of_stretch_absent hstretch
    next => exact ih h

theorem get?_of_reach_absent {followLast : Bool} {p : Path}
    (h : d.reach followLast p = .absent v name) : d.get? (v ++ [name]) = none := by
  unfold reach at h
  split at h
  · cases h
  · exact get?_of_follow_absent h

/-- Names that led to a free one lead to the file that takes it. -/
theorem exists_way_of_absent {n : Nat} (h : d.follow true n l names = .absent v name)
    (hgrows : Grows changed d d') (hfile : d'.get? (v ++ [name]) = some (.file bytes)) :
    ∃ seen k, Way d' l names seen k (v ++ [name]) (.file bytes) ∧ k < n := by
  induction n generalizing l names with
  | zero => simp [follow] at h
  | succ n ihn =>
    induction names generalizing l with
    | nil => simp [follow, stretch] at h
    | cons first rest ih =>
      by_cases hname : first = ['.', '.']
      · subst hname
        rw [follow_up] at h
        obtain ⟨seen, k, hway, hk⟩ := ih h
        exact ⟨seen, k, .up hway, hk⟩
      · cases hget : d.get? (l ++ [first]) with
        | none =>
          rw [follow, stretch, if_neg hname, hget] at h
          dsimp only at h
          split at h
          next hrest =>
            rw [List.isEmpty_iff] at hrest
            simp only [Destination.absent.injEq] at h
            obtain ⟨rfl, rfl⟩ := h
            subst hrest
            exact ⟨_, 0, .file hname hfile, Nat.succ_pos n⟩
          next => simp at h
        | some entry =>
          cases entry with
          | directory =>
            rw [follow_into hname hget] at h
            obtain ⟨seen, k, hway, hk⟩ := ih h
            rcases hgrows.kept _ _ hget with hget' | ⟨-, _, _, hnot, -⟩
            · exact ⟨_, k, .into hname hget' hway, hk⟩
            · cases hnot
          | file bytes =>
            rw [follow, stretch, if_neg hname, hget] at h
            dsimp only at h
            split at h <;> simp at h
          | link target =>
            rw [follow_through hname hget (.inl rfl)] at h
            obtain ⟨seen, k, hway, hk⟩ := ihn h
            rcases hgrows.kept _ _ hget with hget' | ⟨-, _, _, hnot, -⟩
            · exact ⟨_, k + 1, .through hname hget' hway, by omega⟩
            · cases hnot

end Disk

namespace DiskChange

open Disk Steps

variable {d d' : Disk} {p : Path} {changed : Location → Prop}

/-! ## Making directories -/

theorem grows_makeDirectory (p : Path) (d : Disk) :
    Grows changed d ((makeDirectory p).run.run d).2 := by
  rw [run_makeDirectory]
  split
  next habsent => exact .put_absent (get?_of_reach_absent habsent) (by simp)
  next => exact .refl _ d
  next => exact .refl _ d

theorem grows_ensureDirectory (p : Path) (d : Disk) :
    Grows changed d ((ensureDirectory p).run.run d).2 := by
  have hmake := @grows_makeDirectory changed p d
  rw [run_ensureDirectory]
  generalize (makeDirectory p).run.run d = result at hmake
  obtain ⟨r, d'⟩ := result
  cases r with
  | ok a => exact hmake
  | error f =>
    dsimp only
    split <;> exact hmake

theorem grows_ensureNames (anchor : Anchor) (names : List Text) (d : Disk) :
    Grows changed d ((ensureNames anchor names).run.run d).2 := by
  induction names generalizing d with
  | nil => exact grows_ensureDirectory _ d
  | cons name outer ih =>
    have hfirst := @grows_ensureDirectory changed ⟨anchor, (name :: outer).reverse⟩ d
    rw [ensureNames, run_tryCatch]
    generalize (ensureDirectory ⟨anchor, (name :: outer).reverse⟩).run.run d = result at hfirst
    obtain ⟨r, d₁⟩ := result
    cases r with
    | ok a => exact hfirst
    | error f =>
      refine hfirst.trans ?_
      dsimp only
      split
      · exact .refl _ d₁
      · have houter := ih d₁
        rw [run_bind]
        generalize (ensureNames anchor outer).run.run d₁ = result at houter
        obtain ⟨r, d₂⟩ := result
        cases r with
        | ok a => exact houter.trans (grows_ensureDirectory _ d₂)
        | error f => exact houter

theorem grows_ensureDirectories (p : Path) (d : Disk) :
    Grows changed d ((ensureDirectories p).run.run d).2 := grows_ensureNames _ _ d

/-! ## Writing -/

/-- A file that was written is found, and no other entry has changed. -/
theorem grows_writeBytes {bytes : List UInt8} (h : (writeBytes p bytes).run.run d = (.ok (), d')) :
    ∃ l, d'.find? p = some (l, .file bytes) ∧ Grows (· = l) d d' := by
  rw [run_writeBytes] at h
  split at h
  next l name hreach =>
    obtain rfl := (Prod.mk.inj h).2
    have hnone := get?_of_reach_absent hreach
    have hgrows : Grows (· = l ++ [name]) d (d.put (l ++ [name]) (.file bytes)) :=
      .put_absent hnone (by simp)
    refine ⟨l ++ [name], ?_, hgrows⟩
    unfold reach at hreach
    split at hreach
    · cases hreach
    next hanchor =>
      obtain ⟨seen, k, hway, hk⟩ := exists_way_of_absent hreach hgrows
        ((get?_put (by simp) _).trans (if_pos rfl))
      exact find?_eq_some_iff.2 ⟨hanchor, seen, k, hway, Nat.le_of_lt_succ hk⟩
  next l old hreach =>
    obtain rfl := (Prod.mk.inj h).2
    have hfind : d.find? p = some (l, .file old) := by rw [find?, hreach]
    have hfile := get?_of_find?_file hfind
    have hgrows := Grows.put_file hfile bytes
    refine ⟨l, ?_, hgrows⟩
    obtain ⟨e', hfind', he'⟩ := find?_grows hfind hgrows
    have hkind : ∃ new, e' = .file new := by
      rcases he' with rfl | ⟨-, _, new, -, rfl⟩
      · exact ⟨old, rfl⟩
      · exact ⟨new, rfl⟩
    obtain ⟨new, rfl⟩ := hkind
    have hnew := get?_of_find?_file hfind'
    have hl : l ≠ [] := by
      rintro rfl
      cases hfile
    rw [get?_put hl, if_pos rfl] at hnew
    obtain rfl : bytes = new := Entry.file.inj (Option.some.inj hnew)
    exact hfind'
  next => cases h
  next => cases h
  next => cases h

end DiskChange

end NestClient
