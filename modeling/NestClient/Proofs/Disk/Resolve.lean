import NestClient.Proofs.Disk.Way

/-! Locations as paths. In a tree the way to a location goes through directories only, and a path that
leads to something resolves to the location of that.

* `IsTree.way`: the way along the names of a location.
* `resolve_of_find?`: nested resolution of links agrees with following them one after the other. The
  number of links on a way bounds the nesting, since a link that leads into itself has no way. -/

namespace NestClient.Disk

variable {d : Disk} {l m : Location} {names rest : List Text} {seen : List Location} {k : Nat}
  {e : Entry} {name target : Text}

/-! ## Ways in a tree -/

namespace IsTree

/-- The names of a location lead there, through directories and no link. -/
theorem way_append (h : d.IsTree) (hget : d.get? (l ++ names) = some e) (hlink : ∀ t, e ≠ .link t)
    (hnil : names = [] → e = .directory) :
    ∃ seen, Way d l names seen 0 (l ++ names) e ∧ ∀ v ∈ seen, v <+: l ++ names := by
  induction names generalizing l with
  | nil =>
    rw [hnil rfl, List.append_nil]
    exact ⟨[], .here l, by simp⟩
  | cons name rest ih =>
    have hname : name ≠ ['.', '.'] := (h.isEntryName hget (by simp)).ne_dots
    rw [List.append_cons] at hget ⊢
    have hpre : l ++ [name] <+: l ++ [name] ++ rest := List.prefix_append _ _
    by_cases hrest : rest = []
    · subst hrest
      rw [List.append_nil] at hget hpre ⊢
      cases e with
      | directory =>
        exact ⟨_, .into hname hget (.here _), fun v hv => List.mem_singleton.1 hv ▸ hpre⟩
      | file bytes => exact ⟨_, .file hname hget, fun v hv => List.mem_singleton.1 hv ▸ hpre⟩
      | link target => exact absurd rfl (hlink target)
    · have hdir := h.directory_of_append hrest hget
      obtain ⟨seen, hway, hseen⟩ := ih hget fun heq => absurd heq hrest
      refine ⟨_, .into hname hdir hway, fun v hv => ?_⟩
      rcases List.mem_cons.1 hv with rfl | hv
      · exact hpre
      · exact hseen v hv

theorem way (h : d.IsTree) (hget : d.get? m = some e) (hlink : ∀ t, e ≠ .link t) :
    ∃ seen, Way d [] m seen 0 m e ∧ ∀ v ∈ seen, v <+: m := by
  refine h.way_append (l := []) hget hlink ?_
  rintro rfl
  exact (Option.some.inj hget).symm

theorem directory_dropLast (h : d.IsTree) (hl : d.get? l = some .directory) :
    d.get? l.dropLast = some .directory := by
  rcases List.eq_nil_or_concat l with rfl | ⟨front, last, rfl⟩
  · rfl
  · rw [List.concat_eq_append] at hl ⊢
    rw [List.dropLast_concat]
    exact h.directory_of_snoc hl

/-- A way that begins in a directory ends where its entry stands. -/
theorem get?_of_way (h : d.IsTree) (hway : Way d l names seen k m e)
    (hl : d.get? l = some .directory) : d.get? m = some e := by
  induction hway with
  | here l => exact hl
  | up _ ih => exact ih (h.directory_dropLast hl)
  | into _ hget _ ih => exact ih hget
  | file _ hget => exact hget
  | through _ _ _ ih =>
    refine ih ?_
    rw [linkStart]
    split
    · rfl
    · exact hl

theorem get?_of_find? (h : d.IsTree) {p : Path} (hp : d.find? p = some (m, e)) :
    d.get? m = some e := by
  obtain ⟨-, seen, k, hway, -⟩ := find?_eq_some_iff.1 hp
  exact h.get?_of_way hway rfl

theorem find?_location (h : d.IsTree) (hget : d.get? m = some e) (hlink : ∀ t, e ≠ .link t) :
    d.find? ⟨.root, m⟩ = some (m, e) := by
  obtain ⟨seen, hway, -⟩ := h.way hget hlink
  exact find?_eq_some_iff.2 ⟨by simp, seen, 0, hway, Nat.zero_le _⟩

end IsTree

theorem Way.not_link (hway : Way d l names seen k m e) (t : Text) : e ≠ .link t := by
  induction hway with
  | here => simp
  | up _ ih => exact ih
  | into _ _ _ ih => exact ih
  | file => simp
  | through _ _ _ ih => exact ih

theorem Way.mem_seen (hway : Way d l (name :: rest) seen k m e) (hname : name ≠ ['.', '.']) :
    l ++ [name] ∈ seen := by
  cases hway with
  | up => exact absurd rfl hname
  | into => exact List.mem_cons_self
  | file => exact List.mem_cons_self
  | through => exact List.mem_cons_self

/-- A way along the names of an entry looks at it. -/
theorem IsTree.mem_seen (h : d.IsTree) {entry : Entry} (hne : names ≠ [])
    (hget : d.get? (l ++ names) = some entry)
    (hway : Way d l (names ++ rest) seen k m e) : l ++ names ∈ seen := by
  induction names generalizing l seen with
  | nil => exact absurd rfl hne
  | cons name names ih =>
    have hname : name ≠ ['.', '.'] := (h.isEntryName hget (by simp)).ne_dots
    by_cases hnames : names = []
    · subst hnames
      exact hway.mem_seen hname
    · rw [List.append_cons] at hget ⊢
      have hdir := h.directory_of_append hnames hget
      rw [List.cons_append] at hway
      generalize hall : names ++ rest = all at hway
      cases hway with
      | up => exact absurd rfl hname
      | into _ _ hway => exact List.mem_cons_of_mem _ (ih hnames hget (hall ▸ hway))
      | file _ hget' => rw [hdir] at hget'; cases hget'
      | through _ hget' => rw [hdir] at hget'; cases hget'

/-! ## Nested links -/

theorem resolveFrom_nil (depth : Nat) (busy : List Location) :
    d.resolveFrom depth busy l [] = (l, true) := by
  cases depth <;> rfl

theorem resolveFrom_up (depth : Nat) (busy : List Location) :
    d.resolveFrom depth busy l (['.', '.'] :: rest) = d.resolveFrom depth busy l.dropLast rest := by
  cases depth <;> rw [resolveFrom, resolveFrom, resolveNames, if_pos rfl]

theorem resolveFrom_into (hname : name ≠ ['.', '.']) (hget : d.get? (l ++ [name]) = some e)
    (hlink : ∀ t, e ≠ .link t) (depth : Nat) (busy : List Location) :
    d.resolveFrom depth busy l (name :: rest) = d.resolveFrom depth busy (l ++ [name]) rest := by
  cases e with
  | directory => cases depth <;> rw [resolveFrom, resolveFrom, resolveNames, if_neg hname, hget]
  | file bytes => cases depth <;> rw [resolveFrom, resolveFrom, resolveNames, if_neg hname, hget]
  | link t => exact absurd rfl (hlink t)

theorem resolveFrom_through (hname : name ≠ ['.', '.'])
    (hget : d.get? (l ++ [name]) = some (.link target)) {depth : Nat} {busy : List Location}
    (hbusy : l ++ [name] ∉ busy) {mid : Location}
    (hmid : d.resolveFrom depth ((l ++ [name]) :: busy) (linkStart l target) (Path.namesOf target)
      = (mid, true)) :
    d.resolveFrom (depth + 1) busy l (name :: rest) = d.resolveFrom (depth + 1) busy mid rest := by
  have hcontains : busy.contains (l ++ [name]) = false := by
    rw [Bool.eq_false_iff, Ne, List.contains_iff_mem]
    exact hbusy
  rw [resolveFrom, resolveNames, if_neg hname, hget]
  simp only [hcontains, Bool.false_eq_true, if_false, hmid]
  rfl

/-- The target of a link has a way through so many links. -/
def Leads (d : Disk) (link : Location) (k : Nat) : Prop :=
  ∃ l name target seen m e, link = l ++ [name] ∧ d.get? link = some (.link target) ∧
    Way d (linkStart l target) (Path.namesOf target) seen k m e

theorem Leads.functional {link : Location} {k k' : Nat} (h : d.Leads link k) (h' : d.Leads link k') :
    k = k' := by
  obtain ⟨l, name, target, seen, m, e, rfl, hget, hway⟩ := h
  obtain ⟨l', name', target', seen', m', e', hlink, hget', hway'⟩ := h'
  obtain ⟨rfl, -⟩ := List.append_inj' hlink rfl
  rw [hget] at hget'
  cases hget'
  exact (hway.functional hway').2.1

/-- A way through fewer links than each of the busy ones leads through meets none of these. -/
theorem resolveFrom_of_way {bound : Nat} (hbound : k < bound) (hway : Way d l names seen k m e)
    {depth : Nat} {busy : List Location} (hbusy : ∀ b ∈ busy, ∀ j, d.Leads b j → k ≤ j)
    (hnodup : busy.Nodup) (hkeys : busy ⊆ d.entries.map (·.1))
    (hdepth : d.entries.length ≤ depth + busy.length) :
    d.resolveFrom depth busy l names = (m, true) := by
  induction bound generalizing l names seen k m e depth busy with
  | zero => omega
  | succ bound ihBound =>
    induction hway with
    | here l => exact resolveFrom_nil depth busy
    | up _ ih =>
      rw [resolveFrom_up]
      exact ih hbound hbusy
    | into hname hget _ ih =>
      rw [resolveFrom_into hname hget (by simp)]
      exact ih hbound hbusy
    | file hname hget =>
      rw [resolveFrom_into hname hget (by simp)]
      exact resolveFrom_nil depth busy
    | @through l name target rest seen k m e hname hget hway ih =>
      obtain ⟨seen₁, k₁, mid, e₁, h₁, hk₁, h₂⟩ := hway.exists_front
      have hleads : d.Leads (l ++ [name]) k₁ := ⟨l, name, target, seen₁, mid, e₁, rfl, hget, h₁⟩
      have hfree : l ++ [name] ∉ busy := by
        intro hmem
        have hle := hbusy _ hmem k₁ hleads
        omega
      have hnodup' : ((l ++ [name]) :: busy).Nodup := List.nodup_cons.2 ⟨hfree, hnodup⟩
      have hkeys' : (l ++ [name]) :: busy ⊆ d.entries.map (·.1) := by
        refine List.cons_subset.2 ⟨?_, hkeys⟩
        exact List.mem_map_of_mem (IsTree.mem_of_get? (by simp) hget)
      have hlen := hnodup'.length_le_of_subset hkeys'
      rw [List.length_cons, List.length_map] at hlen
      obtain ⟨depth, rfl⟩ : ∃ j, depth = j + 1 := ⟨depth - 1, by omega⟩
      have hmid : d.resolveFrom depth ((l ++ [name]) :: busy) (linkStart l target)
          (Path.namesOf target) = (mid, true) := by
        refine ihBound (by omega) h₁ ?_ hnodup' hkeys' (by rw [List.length_cons]; omega)
        intro b hb j hj
        rcases List.mem_cons.1 hb with rfl | hb
        · exact Nat.le_of_eq (hleads.functional hj)
        · have hle := hbusy b hb j hj
          omega
      rw [resolveFrom_through hname hget hfree hmid]
      rcases h₂ with ⟨rfl, rfl⟩ | ⟨seen₂, k₂, h₂, hk₂⟩
      · exact resolveFrom_nil _ busy
      · refine ihBound (by omega) h₂ ?_ hnodup hkeys hdepth
        intro b hb j hj
        have hle := hbusy b hb j hj
        omega

/-! ## Resolved paths -/

theorem normalNames_of_isEntryName (hnames : ∀ n ∈ names, IsEntryName n) (rooted : Bool) :
    Path.normalNames rooted names = names := by
  have hpush : ∀ stack, names.foldl (Path.pushName rooted) stack = names.reverse ++ stack := by
    induction names with
    | nil => exact fun stack => rfl
    | cons n names ih =>
      intro stack
      have hn := hnames n List.mem_cons_self
      have hstep : Path.pushName rooted stack n = n :: stack := by
        unfold Path.pushName
        rw [if_neg, if_pos hn.ne_dots]
        simp [hn.ne_nil, hn.ne_dot]
      rw [List.foldl_cons, hstep, ih fun n hm => hnames n (List.mem_cons_of_mem _ hm),
        List.reverse_cons, List.append_assoc, List.singleton_append]
  rw [Path.normalNames, hpush, List.append_nil, List.reverse_reverse]

/-- A path that leads to something resolves to the location of that. -/
theorem resolve_of_find? (h : d.IsTree) {p : Path} (hp : d.find? p = some (m, e)) :
    d.resolve p = .ok ⟨.root, m⟩ := by
  obtain ⟨-, seen, k, hway, -⟩ := find?_eq_some_iff.1 hp
  have hget := h.get?_of_way hway rfl
  have hresolved : d.resolveFrom d.entries.length [] [] p.names = (m, true) :=
    resolveFrom_of_way (Nat.lt_succ_self k) hway (by simp) List.nodup_nil (List.nil_subset _)
      (by simp)
  have hnames : Path.normalNames true m = m :=
    normalNames_of_isEntryName (fun n hn => h.isEntryName hget hn) true
  have hfind := h.find?_location hget hway.not_link
  unfold resolve
  rw [hresolved]
  dsimp only
  rw [hnames]
  unfold find? at hfind
  split at hfind
  next hreach => rw [hreach]
  all_goals simp at hfind

end NestClient.Disk
