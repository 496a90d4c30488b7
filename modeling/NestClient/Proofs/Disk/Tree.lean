import NestClient.Disk.Tree
import NestClient.Proofs.Path.Names

/-! What a disk holds after each of its changes, and the disks that are trees.

* `get?_put`, `get?_erase`, `get?_clear`: the entry at any location after a change.
* `IsTree`: each location has one entry, which stands in a directory under a name that can be written;
  the changes keep it. -/

namespace NestClient

/-! ## Tables by location -/

theorem lookup_filter {β : Type} (entries : List (Location × β)) (p : Location → Bool)
    (m : Location) :
    (entries.filter fun e => p e.1).lookup m = if p m then entries.lookup m else none := by
  induction entries with
  | nil => simp
  | cons e entries ih =>
    obtain ⟨l, b⟩ := e
    by_cases hm : m = l
    · subst hm
      by_cases hp : p m = true
      · simp [hp]
      · rw [List.filter_cons_of_neg (by simpa using hp), ih]
        simp [hp]
    · have hbeq : (m == l) = false := beq_eq_false_iff_ne.2 hm
      by_cases hp : p l = true
      · rw [List.filter_cons_of_pos (by simpa using hp)]
        simp only [List.lookup_cons, hbeq, ih]
      · rw [List.filter_cons_of_neg (by simpa using hp), ih]
        simp only [List.lookup_cons, hbeq]

theorem lookup_map_replace {β : Type} (entries : List (Location × β)) (l m : Location) (b : β) :
    (entries.map fun old => if old.1 = l then (l, b) else old).lookup m
      = if m = l then (entries.lookup l).map (fun _ => b) else entries.lookup m := by
  induction entries with
  | nil => simp
  | cons e entries ih =>
    obtain ⟨k, old⟩ := e
    rw [List.map_cons]
    dsimp only
    by_cases hk : k = l
    · subst hk
      rw [if_pos (rfl : k = k)]
      by_cases hm : m = k
      · subst hm
        simp
      · have hbeq : (m == k) = false := beq_eq_false_iff_ne.2 hm
        rw [if_neg hm, List.lookup_cons, List.lookup_cons, hbeq]
        dsimp only
        rw [ih, if_neg hm]
    · rw [if_neg hk]
      have hlk : (l == k) = false := beq_eq_false_iff_ne.2 fun h => hk h.symm
      by_cases hm : m = k
      · subst hm
        rw [if_neg hk]
        simp
      · have hbeq : (m == k) = false := beq_eq_false_iff_ne.2 hm
        simp only [List.lookup_cons, hbeq, hlk, ih]

theorem mem_of_lookup_eq {β : Type} {entries : List (Location × β)} {l : Location} {b : β}
    (h : entries.lookup l = some b) : (l, b) ∈ entries := by
  obtain ⟨front, back, rfl, -⟩ := List.lookup_eq_some_iff.1 h
  simp

theorem lookup_eq_of_mem {β : Type} {entries : List (Location × β)}
    (hnodup : (entries.map (·.1)).Nodup) {l : Location} {b : β} (h : (l, b) ∈ entries) :
    entries.lookup l = some b := by
  induction entries with
  | nil => simp at h
  | cons e entries ih =>
    obtain ⟨k, old⟩ := e
    rw [List.map_cons, List.nodup_cons] at hnodup
    rcases List.mem_cons.1 h with heq | h
    · obtain ⟨rfl, rfl⟩ := Prod.mk.inj heq
      simp
    · have hne : l ≠ k := fun heq => hnodup.1 (List.mem_map.2 ⟨(l, b), h, heq⟩)
      rw [List.lookup_cons, beq_eq_false_iff_ne.2 hne]
      exact ih hnodup.2 h

namespace Disk

variable {d : Disk} {l m : Location}

/-! ## Entries after a change -/

theorem get?_nil (d : Disk) : d.get? [] = some .directory := rfl

theorem get?_eq_lookup (h : l ≠ []) : d.get? l = d.entries.lookup l := by
  rw [get?, if_neg (by simpa using h)]

theorem get?_put (hl : l ≠ []) (e : Entry) :
    (d.put l e).get? m = if m = l then some e else d.get? m := by
  by_cases hm : m = []
  · subst hm
    rw [get?_nil, get?_nil, if_neg fun h => hl h.symm]
  · rw [get?_eq_lookup hm, get?_eq_lookup hm]
    unfold put
    split
    · next hsome =>
      rw [lookup_map_replace]
      split
      · obtain ⟨old, hold⟩ := Option.isSome_iff_exists.1 hsome
        rw [hold]
        rfl
      · rfl
    · next hnone =>
      have hlookup : d.entries.lookup l = none := by
        rwa [Bool.not_eq_true, Option.isSome_eq_false_iff, Option.isNone_iff_eq_none] at hnone
      dsimp only
      rw [List.lookup_append]
      by_cases hml : m = l
      · rw [hml, hlookup, if_pos rfl]
        simp
      · have hbeq : (m == l) = false := beq_eq_false_iff_ne.2 hml
        rw [if_neg hml]
        simp [List.lookup_cons, hbeq]

theorem get?_erase (hl : l ≠ []) :
    (d.erase l).get? m = if l <+: m then none else d.get? m := by
  by_cases hm : m = []
  · subst hm
    rw [get?_nil, get?_nil, if_neg (by simpa using hl)]
  · rw [get?_eq_lookup hm, get?_eq_lookup hm, erase,
      lookup_filter d.entries (fun k => !l.isPrefixOf k)]
    by_cases h : l <+: m
    · rw [if_pos h, List.isPrefixOf_iff_prefix.2 h]
      rfl
    · rw [if_neg h, Bool.eq_false_iff.2 fun hp => h (List.isPrefixOf_iff_prefix.1 hp)]
      rfl

theorem get?_clear :
    (d.clear l).get? m = if l <+: m ∧ m ≠ l then none else d.get? m := by
  by_cases hm : m = []
  · subst hm
    rw [get?_nil, get?_nil, if_neg]
    rintro ⟨h, hne⟩
    exact hne (List.prefix_nil.1 h).symm
  · rw [get?_eq_lookup hm, get?_eq_lookup hm, clear,
      lookup_filter d.entries (fun k => !(l.isPrefixOf k && decide (k ≠ l)))]
    by_cases h : l <+: m ∧ m ≠ l
    · rw [if_pos h, List.isPrefixOf_iff_prefix.2 h.1, decide_eq_true h.2]
      rfl
    · have hnot : (l.isPrefixOf m && decide (m ≠ l)) = false := by
        rw [Bool.eq_false_iff, Ne, Bool.and_eq_true, List.isPrefixOf_iff_prefix, decide_eq_true_eq]
        exact h
      rw [if_neg h, hnot]
      rfl

/-! ## Trees -/

/-- A name under which an entry can stand. -/
structure IsEntryName (name : Text) : Prop extends Path.IsName name where
  ne_dots : name ≠ ['.', '.']

instance (name : Text) : Decidable (IsEntryName name) :=
  decidable_of_iff ((name ≠ [] ∧ name ≠ ['.'] ∧ '/' ∉ name) ∧ name ≠ ['.', '.'])
    ⟨fun ⟨⟨hn, hd, hs⟩, hdd⟩ => ⟨⟨hn, hd, hs⟩, hdd⟩,
      fun h => ⟨⟨h.ne_nil, h.ne_dot, h.slash⟩, h.ne_dots⟩⟩

/-- Every location has one entry, which stands in a directory under a name that can be written. -/
structure IsTree (d : Disk) : Prop where
  keys : (d.entries.map (·.1)).Nodup
  inner : ∀ e ∈ d.entries, e.1 ≠ []
  parent : ∀ e ∈ d.entries, d.get? e.1.dropLast = some .directory
  name : ∀ e ∈ d.entries, ∀ name ∈ e.1, IsEntryName name

instance (d : Disk) : Decidable d.IsTree :=
  decidable_of_iff ((d.entries.map (·.1)).Nodup ∧ (∀ e ∈ d.entries, e.1 ≠ []) ∧
      (∀ e ∈ d.entries, d.get? e.1.dropLast = some .directory) ∧
      ∀ e ∈ d.entries, ∀ name ∈ e.1, IsEntryName name)
    ⟨fun ⟨hk, hi, hp, hn⟩ => ⟨hk, hi, hp, hn⟩, fun h => ⟨h.keys, h.inner, h.parent, h.name⟩⟩

namespace IsTree

theorem mem_of_get? (hm : m ≠ []) {e : Entry} (h : d.get? m = some e) : (m, e) ∈ d.entries := by
  rw [get?_eq_lookup hm] at h
  exact mem_of_lookup_eq h

theorem get?_of_mem (h : d.IsTree) {e : Entry} (hm : (m, e) ∈ d.entries) : d.get? m = some e := by
  rw [get?_eq_lookup (h.inner _ hm)]
  exact lookup_eq_of_mem h.keys hm

theorem directory_of_snoc (h : d.IsTree) {name : Text} {e : Entry}
    (hget : d.get? (l ++ [name]) = some e) : d.get? l = some .directory := by
  have hp := h.parent _ (mem_of_get? (by simp) hget)
  rwa [List.dropLast_concat] at hp

theorem directory_of_append (h : d.IsTree) {below : List Text} (hne : below ≠ []) {e : Entry}
    (hget : d.get? (l ++ below) = some e) : d.get? l = some .directory := by
  induction hn : below.length generalizing below e with
  | zero => exact absurd (List.length_eq_zero_iff.1 hn) hne
  | succ n ih =>
    obtain ⟨front, last, rfl⟩ := (List.eq_nil_or_concat below).resolve_left hne
    rw [List.concat_eq_append, ← List.append_assoc] at hget
    have hdir := h.directory_of_snoc hget
    by_cases hfront : front = []
    · rwa [hfront, List.append_nil] at hdir
    · refine ih hfront hdir ?_
      rw [List.concat_eq_append, List.length_append, List.length_singleton] at hn
      omega

/-- What stands somewhere below a location stands below one of its entries, or is one. -/
theorem exists_get?_snoc (h : d.IsTree) {name : Text} {more : List Text} {e : Entry}
    (hget : d.get? (l ++ name :: more) = some e) : ∃ e', d.get? (l ++ [name]) = some e' := by
  by_cases hmore : more = []
  · rw [hmore] at hget
    exact ⟨e, hget⟩
  · rw [List.append_cons] at hget
    exact ⟨_, h.directory_of_append hmore hget⟩

theorem isEntryName (h : d.IsTree) {e : Entry} (hget : d.get? m = some e) {name : Text}
    (hname : name ∈ m) : IsEntryName name := by
  have hm : m ≠ [] := by
    rintro rfl
    simp at hname
  exact h.name _ (mem_of_get? hm hget) name hname

theorem get?_eq_none_of_prefix (h : d.IsTree) (hl : d.get? l ≠ some .directory) {below : List Text}
    (hne : below ≠ []) : d.get? (l ++ below) = none := by
  cases hget : d.get? (l ++ below) with
  | none => rfl
  | some e => exact absurd (h.directory_of_append hne hget) hl

end IsTree

/-! ## Entries of a directory -/

theorem eq_append_of_child {m : Location} {name : Text} (h : (match l.isPrefixOf? m with
    | some [name] => some name
    | some _ | none => none) = some name) : m = l ++ [name] := by
  split at h
  next found hpre =>
    obtain rfl := Option.some.inj h
    exact (List.isPrefixOf?_eq_some_iff_append_eq.1 hpre).symm
  next => simp at h
  next => simp at h

theorem mem_children (h : d.IsTree) {name : Text} :
    name ∈ d.children l ↔ ∃ e, d.get? (l ++ [name]) = some e := by
  rw [children, List.mem_filterMap]
  constructor
  · rintro ⟨⟨m, e⟩, hm, hname⟩
    exact ⟨e, h.get?_of_mem (eq_append_of_child hname ▸ hm)⟩
  · rintro ⟨e, hget⟩
    refine ⟨(l ++ [name], e), IsTree.mem_of_get? (by simp) hget, ?_⟩
    have hpre : l.isPrefixOf? (l ++ [name]) = some [name] :=
      List.isPrefixOf?_eq_some_iff_append_eq.2 rfl
    simp only [hpre]

theorem nodup_children (h : d.IsTree) : (d.children l).Nodup := by
  have hkeys := h.keys
  rw [List.Nodup, List.pairwise_map] at hkeys
  rw [children, List.Nodup, List.pairwise_filterMap]
  refine hkeys.imp ?_
  intro e e' hne name hname name' hname' heq
  exact hne ((eq_append_of_child hname).trans (heq ▸ (eq_append_of_child hname').symm))

theorem mem_directoriesBelow (h : d.IsTree) {names : List Text} :
    names ∈ d.directoriesBelow l ↔ names ≠ [] ∧ d.get? (l ++ names) = some .directory := by
  rw [directoriesBelow, List.mem_filterMap]
  constructor
  · rintro ⟨⟨m, e⟩, hm, hnames⟩
    dsimp only at hnames
    split at hnames
    next name more hfound =>
      rw [List.isPrefixOf?_eq_some_iff_append_eq] at hfound
      obtain rfl := Option.some.inj hnames
      exact ⟨by simp, h.get?_of_mem (hfound ▸ hm)⟩
    next => simp at hnames
  · rintro ⟨hne, hget⟩
    obtain ⟨name, more, rfl⟩ := List.exists_cons_of_ne_nil hne
    refine ⟨(l ++ name :: more, .directory), IsTree.mem_of_get? (by simp) hget, ?_⟩
    have hpre : l.isPrefixOf? (l ++ name :: more) = some (name :: more) :=
      List.isPrefixOf?_eq_some_iff_append_eq.2 rfl
    simp only [hpre]

/-! ## Changes of a tree -/

namespace IsTree

theorem mem_entries_put {e e' : Entry} (h : (m, e') ∈ (d.put l e).entries) :
    m = l ∨ (m, e') ∈ d.entries := by
  unfold Disk.put at h
  split at h
  · obtain ⟨old, hold, heq⟩ := List.mem_map.1 h
    split at heq
    · exact .inl (Prod.mk.inj heq).1.symm
    · exact .inr (heq ▸ hold)
  · rcases List.mem_append.1 h with h | h
    · exact .inr h
    · exact .inl (Prod.mk.inj (List.mem_singleton.1 h)).1

theorem keys_put {e : Entry} (h : (d.entries.map (·.1)).Nodup) :
    ((d.put l e).entries.map (·.1)).Nodup := by
  unfold Disk.put
  split
  · have hkeys : (d.entries.map fun old => if old.1 = l then (l, e) else old).map (·.1)
        = d.entries.map (·.1) := by
      rw [List.map_map]
      refine List.map_congr_left fun old _ => ?_
      by_cases hold : old.1 = l <;> simp [hold]
    rw [hkeys]
    exact h
  · next hnone =>
    rw [List.map_append]
    refine List.nodup_append.2 ⟨h, by simp, ?_⟩
    rintro k hk _ hl rfl
    obtain rfl : k = l := by simpa using hl
    obtain ⟨old, hold, rfl⟩ := List.mem_map.1 hk
    rw [lookup_eq_of_mem h hold] at hnone
    exact hnone rfl

/-- A directory takes an entry, also in the place of one that is no directory. -/
theorem put (h : d.IsTree) {name : Text} {e : Entry} (hname : IsEntryName name)
    (hdir : d.get? l = some .directory) (hold : d.get? (l ++ [name]) ≠ some .directory) :
    (d.put (l ++ [name]) e).IsTree where
  keys := keys_put h.keys
  inner := by
    rintro ⟨m, e'⟩ hm
    rcases mem_entries_put hm with rfl | hm
    · simp
    · exact h.inner _ hm
  parent := by
    rintro ⟨m, e'⟩ hm
    rw [get?_put (by simp)]
    rcases mem_entries_put hm with rfl | hm
    · rw [List.dropLast_concat, if_neg (by simp)]
      exact hdir
    · have hparent := h.parent _ hm
      rw [if_neg]
      · exact hparent
      · intro heq
        rw [heq] at hparent
        exact hold hparent
  name := by
    rintro ⟨m, e'⟩ hm n hn
    rcases mem_entries_put hm with rfl | hm
    · rcases List.mem_append.1 hn with hn | hn
      · exact h.isEntryName hdir hn
      · rw [List.mem_singleton.1 hn]
        exact hname
    · exact h.name _ hm n hn

theorem filter (h : d.IsTree) (p : Location × Entry → Bool)
    (hparent : ∀ e ∈ d.entries.filter p, (⟨d.entries.filter p⟩ : Disk).get? e.1.dropLast
      = d.get? e.1.dropLast) : (⟨d.entries.filter p⟩ : Disk).IsTree where
  keys := h.keys.sublist (List.filter_sublist.map _)
  inner := fun e he => h.inner e (List.mem_filter.1 he).1
  parent := fun e he => by
    rw [hparent e he]
    exact h.parent e (List.mem_filter.1 he).1
  name := fun e he => h.name e (List.mem_filter.1 he).1

theorem erase (h : d.IsTree) (hl : l ≠ []) : (d.erase l).IsTree := by
  refine h.filter _ fun e he => ?_
  change (d.erase l).get? e.1.dropLast = _
  rw [get?_erase hl, if_neg]
  intro hpre
  have hout := (List.mem_filter.1 he).2
  rw [List.isPrefixOf_iff_prefix.2 (hpre.trans (List.dropLast_prefix e.1))] at hout
  exact absurd hout (by decide)

theorem clear (h : d.IsTree) : (d.clear l).IsTree := by
  refine h.filter _ fun e he => ?_
  change (d.clear l).get? e.1.dropLast = _
  rw [get?_clear, if_neg]
  rintro ⟨hpre, -⟩
  obtain ⟨hm, hout⟩ := List.mem_filter.1 he
  have hne : e.1 ≠ l := by
    intro heq
    have hlen := hpre.length_le
    rw [← heq, List.length_dropLast] at hlen
    have hpos := List.length_pos_iff.2 (h.inner e hm)
    omega
  rw [List.isPrefixOf_iff_prefix.2 (hpre.trans (List.dropLast_prefix e.1)),
    decide_eq_true hne] at hout
  exact absurd hout (by decide)

end IsTree

end Disk

end NestClient
