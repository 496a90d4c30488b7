import NestClient.Disk.Lookup
import NestClient.Proofs.Disk.Tree

/-! The way that names take through a disk, with the locations it looks at.

* `Way`: names lead from a location to a directory or a file, through a number of links.
* `find?_eq_some_iff`: what a path leads to is the end of its way.
* `Way.congr`, `Way.append_cases`: a way depends on what it looks at only, and the way of a longer path
  begins with that of a shorter one.
* `Way.follow_append`, `reach_snoc`: names behind those that lead to a directory are followed from
  there. -/

namespace NestClient.Disk

/-- Names lead from a location to an entry. The way looks at some locations in order and goes through
so many links. -/
inductive Way (d : Disk) : Location → List Text → List Location → Nat → Location → Entry → Prop where
  | here (l : Location) : Way d l [] [] 0 l .directory
  | up {l : Location} {rest : List Text} {seen : List Location} {k : Nat} {m : Location} {e : Entry} :
    Way d l.dropLast rest seen k m e → Way d l (['.', '.'] :: rest) seen k m e
  | into {l : Location} {name : Text} {rest : List Text} {seen : List Location} {k : Nat}
    {m : Location} {e : Entry} : name ≠ ['.', '.'] → d.get? (l ++ [name]) = some .directory →
    Way d (l ++ [name]) rest seen k m e → Way d l (name :: rest) ((l ++ [name]) :: seen) k m e
  | file {l : Location} {name : Text} {bytes : List UInt8} : name ≠ ['.', '.'] →
    d.get? (l ++ [name]) = some (.file bytes) →
    Way d l [name] [l ++ [name]] 0 (l ++ [name]) (.file bytes)
  | through {l : Location} {name target : Text} {rest : List Text} {seen : List Location} {k : Nat}
    {m : Location} {e : Entry} : name ≠ ['.', '.'] → d.get? (l ++ [name]) = some (.link target) →
    Way d (linkStart l target) (Path.namesOf target ++ rest) seen k m e →
    Way d l (name :: rest) ((l ++ [name]) :: seen) (k + 1) m e

variable {d d' : Disk} {l m m' : Location} {names rest : List Text} {seen seen' : List Location}
  {k k' : Nat} {e e' : Entry} {name target : Text}

/-! ## Steps of a reader -/

theorem follow_up {followLast : Bool} (n : Nat) :
    d.follow followLast n l (['.', '.'] :: rest) = d.follow followLast n l.dropLast rest := by
  cases n with
  | zero => rfl
  | succ n => rw [follow, follow, stretch, if_pos rfl]

theorem follow_into {followLast : Bool} (hname : name ≠ ['.', '.'])
    (h : d.get? (l ++ [name]) = some .directory) (n : Nat) :
    d.follow followLast n l (name :: rest) = d.follow followLast n (l ++ [name]) rest := by
  cases n with
  | zero => rfl
  | succ n => rw [follow, follow, stretch, if_neg hname, h]

theorem follow_through {followLast : Bool} (hname : name ≠ ['.', '.'])
    (h : d.get? (l ++ [name]) = some (.link target)) (hon : followLast = true ∨ rest ≠ []) (n : Nat) :
    d.follow followLast (n + 1) l (name :: rest)
      = d.follow followLast n (linkStart l target) (Path.namesOf target ++ rest) := by
  have hgo : (rest.isEmpty && !followLast) = false := by
    rcases hon with rfl | hrest
    · simp
    · simp [hrest]
  rw [follow, stretch, if_neg hname, h]
  simp [hgo]

/-! ## Ways and what is found -/

theorem Way.follow (h : Way d l names seen k m e) {n : Nat} (hn : k < n) :
    d.follow true n l names = .found m e := by
  induction h generalizing n with
  | here l =>
    obtain ⟨n, rfl⟩ : ∃ j, n = j + 1 := ⟨n - 1, by omega⟩
    rfl
  | up _ ih =>
    rw [follow_up]
    exact ih hn
  | into hname hget _ ih =>
    rw [follow_into hname hget]
    exact ih hn
  | file hname hget =>
    obtain ⟨n, rfl⟩ : ∃ j, n = j + 1 := ⟨n - 1, by omega⟩
    rw [Disk.follow, stretch, if_neg hname, hget]
    rfl
  | through hname hget _ ih =>
    obtain ⟨n, rfl⟩ : ∃ j, n = j + 1 := ⟨n - 1, by omega⟩
    rw [follow_through hname hget (.inl rfl)]
    exact ih (by omega)

theorem exists_way_of_follow {n : Nat} (h : d.follow true n l names = .found m e) :
    ∃ seen k, Way d l names seen k m e ∧ k < n := by
  induction n generalizing l names with
  | zero => simp [follow] at h
  | succ n ihn =>
    induction names generalizing l with
    | nil =>
      rw [follow, stretch] at h
      simp only [Destination.found.injEq] at h
      obtain ⟨rfl, rfl⟩ := h
      exact ⟨[], 0, .here l, Nat.succ_pos n⟩
    | cons name rest ih =>
      by_cases hname : name = ['.', '.']
      · subst hname
        rw [follow_up] at h
        obtain ⟨seen, k, hway, hk⟩ := ih h
        exact ⟨seen, k, .up hway, hk⟩
      · cases hget : d.get? (l ++ [name]) with
        | none =>
          rw [follow, stretch, if_neg hname, hget] at h
          dsimp only at h
          split at h <;> simp at h
        | some entry =>
          cases entry with
          | directory =>
            rw [follow_into hname hget] at h
            obtain ⟨seen, k, hway, hk⟩ := ih h
            exact ⟨_, k, .into hname hget hway, hk⟩
          | file bytes =>
            rw [follow, stretch, if_neg hname, hget] at h
            dsimp only at h
            split at h
            next hrest =>
              rw [List.isEmpty_iff] at hrest
              simp only [Destination.found.injEq] at h
              obtain ⟨rfl, rfl⟩ := h
              subst hrest
              exact ⟨_, 0, .file hname hget, Nat.succ_pos n⟩
            next => simp at h
          | link target =>
            rw [follow_through hname hget (.inl rfl)] at h
            obtain ⟨seen, k, hway, hk⟩ := ihn h
            exact ⟨_, k + 1, .through hname hget hway, by omega⟩

theorem find?_eq_some_iff {p : Path} :
    d.find? p = some (m, e) ↔
      p.anchor ≠ .here ∧ ∃ seen k, Way d [] p.names seen k m e ∧ k ≤ maxLinks := by
  unfold find? reach
  by_cases hp : p.anchor = .here
  · rw [if_pos hp]
    simp [hp]
  · rw [if_neg hp]
    constructor
    · intro h
      cases hfollow : d.follow true (maxLinks + 1) [] p.names with
      | found l' e' =>
        rw [hfollow] at h
        simp only [Option.some.injEq, Prod.mk.injEq] at h
        obtain ⟨rfl, rfl⟩ := h
        obtain ⟨seen, k, hway, hk⟩ := exists_way_of_follow hfollow
        exact ⟨hp, seen, k, hway, by omega⟩
      | absent => rw [hfollow] at h; simp at h
      | lost => rw [hfollow] at h; simp at h
      | blocked => rw [hfollow] at h; simp at h
      | entangled => rw [hfollow] at h; simp at h
    · rintro ⟨-, seen, k, hway, hk⟩
      rw [hway.follow (Nat.lt_succ_of_le hk)]

theorem directoryAt?_eq_some_iff {p : Path} :
    d.directoryAt? p = some l ↔ d.find? p = some (l, .directory) := by
  unfold directoryAt?
  split
  next hfind => simp [hfind]
  next hfind => simp [hfind]
  next hfind => simp [hfind]
  next hfind => simp [hfind]

/-! ## What ways depend on -/

namespace Way

theorem functional (h : Way d l names seen k m e) (h' : Way d l names seen' k' m' e') :
    seen = seen' ∧ k = k' ∧ m = m' ∧ e = e' := by
  induction h generalizing seen' k' m' e' with
  | here l =>
    cases h'
    exact ⟨rfl, rfl, rfl, rfl⟩
  | up _ ih =>
    cases h' with
    | up h' => exact ih h'
    | into hname => exact absurd rfl hname
    | file hname => exact absurd rfl hname
    | through hname => exact absurd rfl hname
  | into hname hget _ ih =>
    cases h' with
    | up => exact absurd rfl hname
    | into _ _ h' =>
      obtain ⟨rfl, rfl, rfl, rfl⟩ := ih h'
      exact ⟨rfl, rfl, rfl, rfl⟩
    | file _ hget' => rw [hget] at hget'; cases hget'
    | through _ hget' => rw [hget] at hget'; cases hget'
  | file hname hget =>
    cases h' with
    | up => exact absurd rfl hname
    | into _ hget' => rw [hget] at hget'; cases hget'
    | file _ hget' =>
      rw [hget] at hget'
      cases hget'
      exact ⟨rfl, rfl, rfl, rfl⟩
    | through _ hget' => rw [hget] at hget'; cases hget'
  | through hname hget _ ih =>
    cases h' with
    | up => exact absurd rfl hname
    | into _ hget' => rw [hget] at hget'; cases hget'
    | file _ hget' => rw [hget] at hget'; cases hget'
    | through _ hget' h' =>
      rw [hget] at hget'
      cases hget'
      obtain ⟨rfl, rfl, rfl, rfl⟩ := ih h'
      exact ⟨rfl, rfl, rfl, rfl⟩

theorem congr (h : Way d l names seen k m e) (hsame : ∀ v ∈ seen, d.get? v = d'.get? v) :
    Way d' l names seen k m e := by
  induction h with
  | here l => exact .here l
  | up _ ih => exact .up (ih hsame)
  | into hname hget _ ih =>
    rw [hsame _ List.mem_cons_self] at hget
    exact .into hname hget (ih fun v hv => hsame v (List.mem_cons_of_mem _ hv))
  | file hname hget =>
    rw [hsame _ List.mem_cons_self] at hget
    exact .file hname hget
  | through hname hget _ ih =>
    rw [hsame _ List.mem_cons_self] at hget
    exact .through hname hget (ih fun v hv => hsame v (List.mem_cons_of_mem _ hv))

theorem append {more : List Text} (h : Way d l names seen k m .directory)
    (h' : Way d m more seen' k' m' e') : Way d l (names ++ more) (seen ++ seen') (k + k') m' e' := by
  generalize hdir : Entry.directory = e at h
  induction h with
  | here l =>
    rw [Nat.zero_add]
    exact h'
  | up _ ih => exact .up (ih h' hdir)
  | into hname hget _ ih => exact .into hname hget (ih h' hdir)
  | file => cases hdir
  | through hname hget _ ih =>
    have hrest := ih h' hdir
    rw [List.append_assoc] at hrest
    rw [Nat.add_right_comm]
    exact .through hname hget hrest

/-- A way along more names leads to a directory first, and goes on from there. -/
theorem append_cases {more : List Text} (h : Way d l (names ++ more) seen k m e) (hmore : more ≠ []) :
    ∃ seen₁ seen₂ k₁ k₂ mid, Way d l names seen₁ k₁ mid .directory ∧ Way d mid more seen₂ k₂ m e ∧
      seen = seen₁ ++ seen₂ ∧ k = k₁ + k₂ := by
  generalize hall : names ++ more = all at h
  induction h generalizing names with
  | here l =>
    rw [List.append_eq_nil_iff] at hall
    exact absurd hall.2 hmore
  | @up l rest seen k m e hway ih =>
    cases names with
    | nil =>
      rw [List.nil_append] at hall
      subst hall
      exact ⟨[], seen, 0, k, l, .here l, .up hway, rfl, (Nat.zero_add k).symm⟩
    | cons name names =>
      rw [List.cons_append, List.cons.injEq] at hall
      obtain ⟨rfl, hall⟩ := hall
      obtain ⟨seen₁, seen₂, k₁, k₂, mid, h₁, h₂, hseen, hk⟩ := ih hall
      exact ⟨seen₁, seen₂, k₁, k₂, mid, .up h₁, h₂, hseen, hk⟩
  | @into l name rest seen k m e hname hget hway ih =>
    cases names with
    | nil =>
      rw [List.nil_append] at hall
      subst hall
      exact ⟨[], _, 0, k, l, .here l, .into hname hget hway, rfl, (Nat.zero_add k).symm⟩
    | cons _ names =>
      rw [List.cons_append, List.cons.injEq] at hall
      obtain ⟨rfl, hall⟩ := hall
      obtain ⟨seen₁, seen₂, k₁, k₂, mid, h₁, h₂, hseen, hk⟩ := ih hall
      exact ⟨_, seen₂, k₁, k₂, mid, .into hname hget h₁, h₂, by rw [hseen, List.cons_append], hk⟩
  | @file l name bytes hname hget =>
    cases names with
    | nil =>
      rw [List.nil_append] at hall
      subst hall
      exact ⟨[], _, 0, 0, l, .here l, .file hname hget, rfl, rfl⟩
    | cons _ names =>
      rw [List.cons_append, List.cons.injEq, List.append_eq_nil_iff] at hall
      exact absurd hall.2.2 hmore
  | @through l name target rest seen k m e hname hget hway ih =>
    cases names with
    | nil =>
      rw [List.nil_append] at hall
      subst hall
      exact ⟨[], _, 0, k + 1, l, .here l, .through hname hget hway, rfl, (Nat.zero_add _).symm⟩
    | cons _ names =>
      rw [List.cons_append, List.cons.injEq] at hall
      obtain ⟨rfl, hall⟩ := hall
      have hall' : (Path.namesOf target ++ names) ++ more = Path.namesOf target ++ rest := by
        rw [List.append_assoc, hall]
      obtain ⟨seen₁, seen₂, k₁, k₂, mid, h₁, h₂, hseen, hk⟩ := ih hall'
      exact ⟨_, seen₂, k₁ + 1, k₂, mid, .through hname hget h₁, h₂, by rw [hseen, List.cons_append],
        by omega⟩

/-- The names in front lead somewhere through no more links than all names, and from there the others
lead on, if there are any. -/
theorem exists_front {more : List Text} (h : Way d l (names ++ more) seen k m e) :
    ∃ seen₁ k₁ mid e₁, Way d l names seen₁ k₁ mid e₁ ∧ k₁ ≤ k ∧
      (more = [] ∧ mid = m ∨ ∃ seen₂ k₂, Way d mid more seen₂ k₂ m e ∧ k₂ ≤ k) := by
  by_cases hmore : more = []
  · rw [hmore, List.append_nil] at h
    exact ⟨seen, k, m, e, h, Nat.le_refl k, .inl ⟨hmore, rfl⟩⟩
  · obtain ⟨seen₁, seen₂, k₁, k₂, mid, h₁, h₂, -, hk⟩ := h.append_cases hmore
    exact ⟨seen₁, k₁, mid, _, h₁, by omega, .inr ⟨seen₂, k₂, h₂, by omega⟩⟩

theorem follow_append {more : List Text} {followLast : Bool} (h : Way d l names seen k m .directory)
    (hmore : more ≠ []) {n : Nat} (hn : k < n) :
    d.follow followLast n l (names ++ more) = d.follow followLast (n - k) m more := by
  generalize hdir : Entry.directory = e at h
  induction h generalizing n with
  | here l => rw [List.nil_append, Nat.sub_zero]
  | up _ ih =>
    rw [List.cons_append, follow_up]
    exact ih hn hdir
  | into hname hget _ ih =>
    rw [List.cons_append, follow_into hname hget]
    exact ih hn hdir
  | file => cases hdir
  | through hname hget _ ih =>
    obtain ⟨n, rfl⟩ : ∃ j, n = j + 1 := ⟨n - 1, by omega⟩
    rw [List.cons_append, follow_through hname hget (.inr (by simp [hmore])), ← List.append_assoc,
      ih (by omega) hdir, Nat.add_sub_add_right]

/-- Where names lead to something they lead to something without the link at their end, too. -/
theorem exists_follow_false (h : Way d l names seen k m e) {n : Nat} (hn : k < n) :
    ∃ v x, d.follow false n l names = .found v x := by
  induction h generalizing n with
  | here l =>
    obtain ⟨n, rfl⟩ : ∃ j, n = j + 1 := ⟨n - 1, by omega⟩
    exact ⟨l, .directory, rfl⟩
  | up _ ih =>
    rw [follow_up]
    exact ih hn
  | into hname hget _ ih =>
    rw [follow_into hname hget]
    exact ih hn
  | file hname hget =>
    obtain ⟨n, rfl⟩ : ∃ j, n = j + 1 := ⟨n - 1, by omega⟩
    rw [Disk.follow, stretch, if_neg hname, hget]
    exact ⟨_, _, rfl⟩
  | @through l name target rest _ _ _ _ hname hget _ ih =>
    obtain ⟨n, rfl⟩ : ∃ j, n = j + 1 := ⟨n - 1, by omega⟩
    by_cases hrest : rest = []
    · subst hrest
      rw [Disk.follow, stretch, if_neg hname, hget]
      exact ⟨_, _, rfl⟩
    · rw [follow_through hname hget (.inr hrest)]
      exact ih (by omega)

end Way

/-! ## One more name -/

section

variable {anchor : Anchor} {front : List Text} {followLast : Bool}

theorem find?_root (hanchor : anchor ≠ .here) : d.find? ⟨anchor, []⟩ = some ([], .directory) :=
  find?_eq_some_iff.2 ⟨hanchor, [], 0, .here [], Nat.zero_le _⟩

/-- Where a way ends that goes on with a name from a directory, a link not being followed. -/
def entryAt (d : Disk) (l : Location) (name : Text) : Destination :=
  match d.get? (l ++ [name]) with
  | none => .absent l name
  | some e => .found (l ++ [name]) e

variable (hfront : d.find? ⟨anchor, front⟩ = some (l, .directory)) (hname : name ≠ ['.', '.'])

include hfront hname

theorem reach_snoc (hlink : followLast = true → ∀ t, d.get? (l ++ [name]) ≠ some (.link t)) :
    d.reach followLast ⟨anchor, front ++ [name]⟩ = d.entryAt l name := by
  obtain ⟨hanchor, seen, k, hway, hk⟩ := find?_eq_some_iff.1 hfront
  rw [reach, if_neg hanchor, hway.follow_append (by simp) (Nat.lt_succ_of_le hk)]
  obtain ⟨n, hn⟩ : ∃ n, maxLinks + 1 - k = n + 1 := ⟨maxLinks - k, by omega⟩
  rw [hn, follow, stretch, if_neg hname, entryAt]
  cases hget : d.get? (l ++ [name]) with
  | none => rfl
  | some e =>
    cases e with
    | directory => rfl
    | file bytes => rfl
    | link t =>
      cases followLast with
      | false => rfl
      | true => exact absurd hget (hlink rfl t)

theorem reach_absent (hget : d.get? (l ++ [name]) = none) (followLast : Bool) :
    d.reach followLast ⟨anchor, front ++ [name]⟩ = .absent l name := by
  rw [reach_snoc hfront hname (by simp [hget]), entryAt, hget]

theorem reach_found (hget : d.get? (l ++ [name]) = some e)
    (hlink : followLast = true → ∀ t, e ≠ .link t) :
    d.reach followLast ⟨anchor, front ++ [name]⟩ = .found (l ++ [name]) e := by
  rw [reach_snoc hfront hname fun hon t ht => hlink hon t (Option.some.inj (hget.symm.trans ht)),
    entryAt, hget]

theorem find?_snoc (hget : d.get? (l ++ [name]) = some .directory) :
    d.find? ⟨anchor, front ++ [name]⟩ = some (l ++ [name], .directory) := by
  obtain ⟨hanchor, seen, k, hway, hk⟩ := find?_eq_some_iff.1 hfront
  exact find?_eq_some_iff.2 ⟨hanchor, _, _, hway.append (.into hname hget (.here _)), hk⟩

end

/-! ## Disks with less on them -/

/-- Nothing comes into being and nothing changes. -/
def Shrinks (d d' : Disk) : Prop := ∀ v e, d'.get? v = some e → d.get? v = some e

theorem Shrinks.trans {d'' : Disk} (h : Shrinks d d') (h' : Shrinks d' d'') : Shrinks d d'' :=
  fun v e hget => h v e (h' v e hget)

theorem way_of_shrinks (h : Shrinks d d') (hway : Way d' l names seen k m e) :
    Way d l names seen k m e := by
  induction hway with
  | here l => exact .here l
  | up _ ih => exact .up ih
  | into hname hget _ ih => exact .into hname (h _ _ hget) ih
  | file hname hget => exact .file hname (h _ _ hget)
  | through hname hget _ ih => exact .through hname (h _ _ hget) ih

theorem find?_of_shrinks (h : Shrinks d d') {p : Path} (hp : d'.find? p = some (m, e)) :
    d.find? p = some (m, e) := by
  obtain ⟨hanchor, seen, k, hway, hk⟩ := find?_eq_some_iff.1 hp
  exact find?_eq_some_iff.2 ⟨hanchor, seen, k, way_of_shrinks h hway, hk⟩

end NestClient.Disk
