import NestClient.Disk.Change
import NestClient.Proofs.Disk.Places
import NestClient.Proofs.Steps

/-! Making directories and writing files in a tree.

* `ensureDirectories_ok`, `ensureDirectories_error`: all places of a path become directories, and this
  fails exactly where a file is in the way.
* `writeBytes_ok`, `writeBytes_directory`: a file comes to stand where its path ends, unless a directory
  does. -/

namespace NestClient

namespace Disk

/-- A directory stands at the location, or nothing does. -/
def Passable (d : Disk) (v : Location) : Prop := d.get? v = none ∨ d.get? v = some .directory

instance (d : Disk) (v : Location) : Decidable (d.Passable v) :=
  inferInstanceAs (Decidable (_ ∨ _))

variable {d : Disk}

theorem Passable.not_link {v : Location} (h : d.Passable v) (t : Text) :
    d.get? v ≠ some (.link t) := by
  intro hlink
  rcases h with h | h <;> rw [hlink] at h <;> cases h

theorem Passable.not_file {v : Location} (h : d.Passable v) (bytes : List UInt8) :
    d.get? v ≠ some (.file bytes) := by
  intro hfile
  rcases h with h | h <;> rw [hfile] at h <;> cases h

/-- What is no directory and no link either lets names pass or is a file. -/
theorem passable_or_file {v : Location} (hlink : ∀ t, d.get? v ≠ some (.link t)) :
    d.Passable v ∨ ∃ bytes, d.get? v = some (.file bytes) := by
  cases hget : d.get? v with
  | none => exact .inl (.inl hget)
  | some e =>
    cases e with
    | directory => exact .inl (.inr hget)
    | file bytes => exact .inr ⟨bytes, rfl⟩
    | link t => exact absurd hget (hlink t)

end Disk

namespace DiskChange

open Disk Steps

variable {d : Disk} {p : Path} {anchor : Anchor} {front outer names : List Text} {name : Text}
  {l : Location}

/-! ## Making one directory -/

theorem run_makeDirectory (p : Path) (d : Disk) :
    (makeDirectory p).run.run d = match d.reach false p with
      | .absent l name => (.ok (), d.put (l ++ [name]) .directory)
      | .found .. => (.error ⟨p, .occupied⟩, d)
      | destination => (.error ⟨p, destination.problem?.getD .missing⟩, d) := by
  have hget : (makeDirectory p).run.run d = (match d.reach false p with
      | .absent l name => put (l ++ [name]) .directory
      | .found .. => fail p .occupied
      | destination => fail p (destination.problem?.getD .missing)).run.run d := rfl
  rw [hget]
  cases d.reach false p <;> rfl

theorem run_ensureDirectory (p : Path) (d : Disk) :
    (ensureDirectory p).run.run d = match (makeDirectory p).run.run d with
      | (.ok a, d') => (.ok a, d')
      | (.error f, d') =>
        if f.problem = .missing || !d'.isDirectory p then (.error f, d') else (.ok (), d') := by
  rw [ensureDirectory, run_tryCatch]
  rcases (makeDirectory p).run.run d with ⟨r, d'⟩
  cases r with
  | ok a => rfl
  | error f =>
    have hget : (do if f.problem = .missing || !(← get).isDirectory p then throw f :
        DiskChange Unit).run.run d' = (if f.problem = .missing || !d'.isDirectory p then throw f
          else pure () : DiskChange Unit).run.run d' := rfl
    dsimp only
    rw [hget]
    split <;> rfl

theorem ensureDirectory_absent {l : Location} (h : d.reach false p = .absent l name) :
    (ensureDirectory p).run.run d = (.ok (), d.put (l ++ [name]) .directory) := by
  rw [run_ensureDirectory, run_makeDirectory, h]

theorem ensureDirectory_found {l : Location} {e : Entry} (h : d.reach false p = .found l e)
    (hdir : d.isDirectory p = true) : (ensureDirectory p).run.run d = (.ok (), d) := by
  rw [run_ensureDirectory, run_makeDirectory, h]
  simp [hdir]

theorem ensureDirectory_occupied {l : Location} {e : Entry} (h : d.reach false p = .found l e)
    (hdir : d.isDirectory p = false) :
    (ensureDirectory p).run.run d = (.error ⟨p, .occupied⟩, d) := by
  rw [run_ensureDirectory, run_makeDirectory, h]
  simp [hdir]

theorem ensureDirectory_lost (h : d.reach false p = .lost) :
    (ensureDirectory p).run.run d = (.error ⟨p, .missing⟩, d) := by
  rw [run_ensureDirectory, run_makeDirectory, h]
  rfl

theorem ensureDirectory_blocked (h : d.reach false p = .blocked) (hdir : d.isDirectory p = false) :
    (ensureDirectory p).run.run d = (.error ⟨p, .notDirectory⟩, d) := by
  rw [run_ensureDirectory, run_makeDirectory, h]
  simp [hdir, Destination.problem?]

theorem ensureDirectory_there (h : d.find? p = some (l, .directory)) :
    (ensureDirectory p).run.run d = (.ok (), d) := by
  obtain ⟨hanchor, seen, k, hway, hk⟩ := find?_eq_some_iff.1 h
  obtain ⟨v, e, hfollow⟩ := hway.exists_follow_false (Nat.lt_succ_of_le hk)
  have hreach : d.reach false p = .found v e := by rw [reach, if_neg hanchor, hfollow]
  have hdir : d.isDirectory p = true := by rw [isDirectory, directoryAt?_eq_some_iff.2 h]; rfl
  exact ensureDirectory_found hreach hdir

theorem ensureDirectory_last (h : d.IsTree) (hfront : d.find? ⟨anchor, front⟩ = some (l, .directory))
    (hname : Path.IsName name) (hlast : d.Passable (place l name)) :
    ∃ d', (ensureDirectory ⟨anchor, front ++ [name]⟩).run.run d = (.ok (), d') ∧ d'.IsTree ∧
      ∀ v, d'.get? v = if v = place l name then some .directory else d.get? v := by
  have hl := h.get?_of_find? hfront
  by_cases hdir : d.get? (place l name) = some .directory
  · have hplaces : ∀ v ∈ places l [name], d.get? v = some .directory := by
      intro v hv
      rw [List.mem_singleton.1 hv]
      exact hdir
    refine ⟨d, ensureDirectory_there (find?_of_places hfront hplaces), h, fun v => ?_⟩
    split
    next heq => rw [heq, hdir]
    next => rfl
  · have hdots : name ≠ ['.', '.'] := by
      rintro rfl
      exact hdir (h.directory_dropLast hl)
    have hnone := hlast.resolve_right hdir
    rw [place_eq hdots] at hnone ⊢
    refine ⟨_, ensureDirectory_absent (reach_absent hfront hdots hnone false), ?_, fun v => ?_⟩
    · exact h.put ⟨hname, hdots⟩ hl (by rw [hnone]; simp)
    · exact get?_put (by simp) _

theorem ensureDirectory_file (h : d.IsTree) (hfront : d.find? ⟨anchor, front⟩ = some (l, .directory))
    {bytes : List UInt8} (hfile : d.get? (place l name) = some (.file bytes)) :
    (ensureDirectory ⟨anchor, front ++ [name]⟩).run.run d
      = (.error ⟨⟨anchor, front ++ [name]⟩, .occupied⟩, d) := by
  have hdots : name ≠ ['.', '.'] := by
    rintro rfl
    have hdir := h.directory_dropLast (h.get?_of_find? hfront)
    rw [place, if_pos rfl, hdir] at hfile
    cases hfile
  rw [place_eq hdots] at hfile
  have hreach : ∀ followLast, d.reach followLast ⟨anchor, front ++ [name]⟩
      = .found (l ++ [name]) (.file bytes) :=
    fun followLast => reach_found hfront hdots hfile (by simp)
  refine ensureDirectory_occupied (hreach false) ?_
  rw [isDirectory, directoryAt?, find?, hreach true]
  rfl

/-! ## Making directories up to the last -/

theorem ensureNames_there (h : d.find? ⟨anchor, outer.reverse⟩ = some (l, .directory)) :
    (ensureNames anchor outer).run.run d = (.ok (), d) := by
  have hthere := ensureDirectory_there h
  cases outer with
  | nil => exact hthere
  | cons name outer =>
    rw [ensureNames]
    exact catch_ok hthere

theorem ensureNames_step (h : (ensureDirectory ⟨anchor, (name :: outer).reverse⟩).run.run d
      = (.error ⟨p, .missing⟩, d)) :
    (ensureNames anchor (name :: outer)).run.run d = (do
      ensureNames anchor outer
      ensureDirectory ⟨anchor, (name :: outer).reverse⟩ : DiskChange Unit).run.run d := by
  rw [ensureNames]
  exact catch_error h

theorem ensureNames_stop {f : DiskFault} (hf : f.problem ≠ .missing)
    (h : (ensureDirectory ⟨anchor, (name :: outer).reverse⟩).run.run d = (.error f, d)) :
    (ensureNames anchor (name :: outer)).run.run d = (.error f, d) := by
  rw [ensureNames]
  refine (catch_error h).trans ?_
  rw [if_pos hf]
  rfl

theorem reverse_names : (name :: (outer ++ front.reverse)).reverse = front ++ outer.reverse ++ [name] := by
  rw [List.reverse_cons, List.reverse_append, List.reverse_reverse]

theorem shrinks_of_passable {d' : Disk} {made : List Location} (hpass : ∀ v ∈ made, d.Passable v)
    (hget : ∀ v, d'.get? v = if v ∈ made then some .directory else d.get? v) : Shrinks d' d := by
  intro v e hv
  rw [hget]
  split
  next hmem =>
    rcases hpass v hmem with hnone | hdir
    · rw [hnone] at hv
      cases hv
    · rw [← hv, hdir]
  next => exact hv

/-- Where the places of names have been made, their path leads to a directory. -/
theorem find?_of_made (hfront : d.find? ⟨anchor, front⟩ = some (l, .directory)) {d' : Disk}
    (hpass : ∀ v ∈ places l names, d.Passable v)
    (hget : ∀ v, d'.get? v = if v ∈ places l names then some .directory else d.get? v) :
    d'.find? ⟨anchor, front ++ names⟩ = some (endPlace l names, .directory) :=
  find?_of_places (find?_of_shrinks (shrinks_of_passable hpass hget) hfront) fun v hv =>
    (hget v).trans (if_pos hv)

theorem passable_of_no_file {made : List Location} (hlinks : ∀ v ∈ made, ∀ t, d.get? v ≠ some (.link t))
    (hfile : ¬∃ v ∈ made, ∃ bytes, d.get? v = some (.file bytes)) : ∀ v ∈ made, d.Passable v := by
  intro v hv
  refine (passable_or_file (hlinks v hv)).resolve_right ?_
  rintro ⟨bytes, hget⟩
  exact hfile ⟨v, hv, bytes, hget⟩

section

variable (h : d.IsTree) (hfront : d.find? ⟨anchor, front⟩ = some (l, .directory))

include h hfront

/-- Where a place on the way is no directory, no directory is found behind it. -/
theorem isDirectory_of_not_places (name : Text)
    (hlinks : ∀ v ∈ places l outer.reverse, ∀ t, d.get? v ≠ some (.link t))
    (hnot : ¬∀ v ∈ places l outer.reverse, d.get? v = some .directory) :
    d.isDirectory ⟨anchor, front ++ outer.reverse ++ [name]⟩ = false := by
  rw [isDirectory, directoryAt?, find?]
  rcases reach_of_not_places h hfront (List.cons_ne_nil name []) hlinks hnot true
    with ⟨hlost, -⟩ | ⟨hblocked, -⟩
  · rw [hlost]
    rfl
  · rw [hblocked]
    rfl

/-- All places of the names become directories. -/
theorem ensureNames_ok (hnames : ∀ n ∈ outer, Path.IsName n)
    (hplaces : ∀ v ∈ places l outer.reverse, d.Passable v) :
    ∃ d', (ensureNames anchor (outer ++ front.reverse)).run.run d = (.ok (), d') ∧ d'.IsTree ∧
      ∀ v, d'.get? v = if v ∈ places l outer.reverse then some .directory else d.get? v := by
  induction outer with
  | nil =>
    have hthere : d.find? ⟨anchor, ([] ++ front.reverse).reverse⟩ = some (l, .directory) := by
      rw [List.nil_append, List.reverse_reverse, hfront]
    exact ⟨d, ensureNames_there hthere, h, fun v => rfl⟩
  | cons name outer ih =>
    rw [List.reverse_cons, places_append] at hplaces ⊢
    have hname := hnames name List.mem_cons_self
    have hlast := hplaces _ (List.mem_append_right _ List.mem_cons_self)
    by_cases houter : ∀ v ∈ places l outer.reverse, d.get? v = some .directory
    · obtain ⟨d', hrun, htree, hget⟩ :=
        ensureDirectory_last h (find?_of_places hfront houter) hname hlast
      refine ⟨d', ?_, htree, fun v => ?_⟩
      · rw [← reverse_names] at hrun
        rw [List.cons_append, ensureNames]
        exact catch_ok hrun
      · rw [hget]
        simp only [places, List.mem_append, List.mem_singleton]
        by_cases hv : v ∈ places l outer.reverse
        · rw [if_pos (Or.inl hv), houter v hv, ite_self]
        · simp only [hv, false_or]
    · have hpass : ∀ v ∈ places l outer.reverse, d.Passable v :=
        fun v hv => hplaces v (List.mem_append_left _ hv)
      obtain ⟨d₁, hrun₁, htree₁, hget₁⟩ := ih (fun n hn => hnames n (List.mem_cons_of_mem _ hn)) hpass
      have hlast₁ : d₁.Passable (place (endPlace l outer.reverse) name) := by
        rw [Passable, hget₁]
        split
        · exact .inr rfl
        · exact hlast
      obtain ⟨d', hrun, htree, hget⟩ :=
        ensureDirectory_last htree₁ (find?_of_made hfront hpass hget₁) hname hlast₁
      refine ⟨d', ?_, htree, fun v => ?_⟩
      · rcases reach_of_not_places h hfront (List.cons_ne_nil name [])
          (fun v hv => (hpass v hv).not_link) houter false with ⟨hlost, -⟩ | ⟨-, v, hv, bytes, hfile⟩
        · rw [← reverse_names] at hlost hrun
          rw [List.cons_append, ensureNames_step (ensureDirectory_lost hlost), bind_ok hrun₁, hrun]
        · exact absurd hfile ((hpass v hv).not_file bytes)
      · rw [hget, hget₁]
        simp only [places, List.mem_append, List.mem_singleton]
        by_cases hv : v = place (endPlace l outer.reverse) name
        · rw [if_pos hv, if_pos (Or.inr hv)]
        · simp only [hv, or_false, if_false]

/-- A file among the places of the names is in the way. -/
theorem ensureNames_error (hnames : ∀ n ∈ outer, Path.IsName n)
    (hlinks : ∀ v ∈ places l outer.reverse, ∀ t, d.get? v ≠ some (.link t))
    (hfile : ∃ v ∈ places l outer.reverse, ∃ bytes, d.get? v = some (.file bytes)) :
    ∃ f d', (ensureNames anchor (outer ++ front.reverse)).run.run d = (.error f, d') := by
  induction outer with
  | nil =>
    obtain ⟨v, hv, -⟩ := hfile
    cases hv
  | cons name outer ih =>
    rw [List.reverse_cons, places_append] at hlinks hfile
    rw [List.cons_append]
    have hlinks' : ∀ v ∈ places l outer.reverse, ∀ t, d.get? v ≠ some (.link t) :=
      fun v hv => hlinks v (List.mem_append_left _ hv)
    have hnames' : ∀ n ∈ outer, Path.IsName n := fun n hn => hnames n (List.mem_cons_of_mem _ hn)
    by_cases houter : ∀ v ∈ places l outer.reverse, d.get? v = some .directory
    · obtain ⟨v, hv, bytes, hfile⟩ := hfile
      rcases List.mem_append.1 hv with hv | hv
      · rw [houter v hv] at hfile
        cases hfile
      · rw [List.mem_singleton.1 hv] at hfile
        have hrun := ensureDirectory_file h (find?_of_places hfront houter) hfile
        rw [← reverse_names] at hrun
        exact ⟨_, _, ensureNames_stop (by simp) hrun⟩
    · rcases reach_of_not_places h hfront (List.cons_ne_nil name []) hlinks' houter false
        with ⟨hlost, -⟩ | ⟨hblocked, -⟩
      · rw [← reverse_names] at hlost
        rw [ensureNames_step (ensureDirectory_lost hlost)]
        by_cases hfile' : ∃ v ∈ places l outer.reverse, ∃ bytes, d.get? v = some (.file bytes)
        · obtain ⟨f, d', hrun⟩ := ih hnames' hlinks' hfile'
          exact ⟨f, d', bind_error hrun⟩
        · have hpass := passable_of_no_file hlinks' hfile'
          obtain ⟨d₁, hrun₁, htree₁, hget₁⟩ := ensureNames_ok h hfront hnames' hpass
          obtain ⟨v, hv, bytes, hget⟩ := hfile
          have hout : v ∉ places l outer.reverse := fun hv => hfile' ⟨v, hv, bytes, hget⟩
          have hv := (List.mem_append.1 hv).resolve_left hout
          obtain rfl := List.mem_singleton.1 hv
          have hget' : d₁.get? (place (endPlace l outer.reverse) name) = some (.file bytes) := by
            rw [hget₁, if_neg hout]
            exact hget
          have hrun := ensureDirectory_file htree₁ (find?_of_made hfront hpass hget₁) hget'
          rw [← reverse_names] at hrun
          exact ⟨_, _, (bind_ok hrun₁).trans hrun⟩
      · have hdir := isDirectory_of_not_places h hfront name hlinks' houter
        have hrun := ensureDirectory_blocked hblocked hdir
        rw [← reverse_names] at hrun
        exact ⟨_, _, ensureNames_stop (by simp) hrun⟩

theorem ensureDirectories_below (hnames : ∀ n ∈ names, Path.IsName n)
    (hplaces : ∀ v ∈ places l names, d.Passable v) :
    ∃ d', (ensureDirectories ⟨anchor, front ++ names⟩).run.run d = (.ok (), d') ∧ d'.IsTree ∧
      (∀ v, d'.get? v = if v ∈ places l names then some .directory else d.get? v) ∧
      d'.find? ⟨anchor, front ++ names⟩ = some (endPlace l names, .directory) := by
  have hreverse : ∀ n ∈ names.reverse, Path.IsName n := fun n hn => hnames n (List.mem_reverse.1 hn)
  have hok := ensureNames_ok h hfront hreverse
  rw [List.reverse_reverse, ← List.reverse_append] at hok
  obtain ⟨d', hrun, htree, hget⟩ := hok hplaces
  exact ⟨d', hrun, htree, hget, find?_of_made hfront hplaces hget⟩

end

section

variable (h : d.IsTree) (hanchor : p.anchor ≠ .here) (hnames : ∀ n ∈ p.names, Path.IsName n)

include h hanchor hnames

theorem ensureDirectories_ok (hplaces : ∀ v ∈ places [] p.names, d.Passable v) :
    ∃ d', (ensureDirectories p).run.run d = (.ok (), d') ∧ d'.IsTree ∧
      ∀ v, d'.get? v = if v ∈ places [] p.names then some .directory else d.get? v := by
  obtain ⟨d', hrun, htree, hget, -⟩ := ensureDirectories_below h (find?_root hanchor) hnames hplaces
  exact ⟨d', hrun, htree, hget⟩

theorem ensureDirectories_error (hlinks : ∀ v ∈ places [] p.names, ∀ t, d.get? v ≠ some (.link t))
    (hnot : ¬∀ v ∈ places [] p.names, d.Passable v) :
    ∃ f d', (ensureDirectories p).run.run d = (.error f, d') := by
  have hfile : ∃ v ∈ places [] p.names, ∃ bytes, d.get? v = some (.file bytes) :=
    Classical.byContradiction fun hnone => hnot (passable_of_no_file hlinks hnone)
  have hreverse : ∀ n ∈ p.names.reverse, Path.IsName n := fun n hn => hnames n (List.mem_reverse.1 hn)
  have herror := ensureNames_error h (find?_root hanchor) hreverse
  rw [List.reverse_reverse, List.reverse_nil, List.append_nil] at herror
  exact herror hlinks hfile

end

/-! ## Writing -/

theorem run_writeBytes (p : Path) (bytes : List UInt8) (d : Disk) :
    (writeBytes p bytes).run.run d = match d.reach true p with
      | .absent l name => (.ok (), d.put (l ++ [name]) (.file bytes))
      | .found l (.file _) => (.ok (), d.put l (.file bytes))
      | .found _ .directory => (.error ⟨p, .isDirectory⟩, d)
      | .found _ (.link _) => (.error ⟨p, .tooManyLinks⟩, d)
      | destination => (.error ⟨p, destination.problem?.getD .missing⟩, d) := by
  have hget : (writeBytes p bytes).run.run d = (match d.reach true p with
      | .absent l name => put (l ++ [name]) (.file bytes)
      | .found l (.file _) => put l (.file bytes)
      | .found _ .directory => fail p .isDirectory
      | .found _ (.link _) => fail p .tooManyLinks
      | destination => fail p (destination.problem?.getD .missing)).run.run d := rfl
  rw [hget]
  cases d.reach true p with
  | found l e => cases e <;> rfl
  | absent => rfl
  | lost => rfl
  | blocked => rfl
  | entangled => rfl

theorem writeBytes_ok (h : d.IsTree) (hfront : d.find? ⟨anchor, front⟩ = some (l, .directory))
    (hname : IsEntryName name) (hdir : d.get? (l ++ [name]) ≠ some .directory)
    (hlink : ∀ t, d.get? (l ++ [name]) ≠ some (.link t)) (bytes : List UInt8) :
    ∃ d', (writeBytes ⟨anchor, front ++ [name]⟩ bytes).run.run d = (.ok (), d') ∧ d'.IsTree ∧
      ∀ v, d'.get? v = if v = l ++ [name] then some (.file bytes) else d.get? v := by
  refine ⟨d.put (l ++ [name]) (.file bytes), ?_, ?_, fun v => get?_put (by simp) _⟩
  · rw [run_writeBytes]
    rcases passable_or_file hlink with hpass | ⟨old, hget⟩
    · rw [reach_absent hfront hname.ne_dots (hpass.resolve_right hdir)]
    · rw [reach_found hfront hname.ne_dots hget (by simp)]
  · exact h.put hname (h.get?_of_find? hfront) hdir

theorem writeBytes_directory (hfind : d.find? p = some (l, .directory)) (bytes : List UInt8) :
    (writeBytes p bytes).run.run d = (.error ⟨p, .isDirectory⟩, d) := by
  rw [find?] at hfind
  split at hfind
  next hreach =>
    obtain ⟨rfl, rfl⟩ := Prod.mk.inj (Option.some.inj hfind)
    rw [run_writeBytes, hreach]
  all_goals cases hfind

end DiskChange

end NestClient
