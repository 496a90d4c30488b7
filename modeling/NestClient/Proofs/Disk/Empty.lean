import NestClient.Proofs.Disk.Site
import NestClient.Proofs.Text.Sort

/-! Emptying a directory of a tree.

* `remove_ok`: an entry of any kind goes with all below it, and nothing else does.
* `emptyDirectory_site`, `emptyDirectory_ok`: a directory that can be reached or made is there afterwards,
  and nothing stands below it. -/

namespace NestClient.DiskChange

open Disk Steps

variable {d : Disk} {p : Path} {anchor : Anchor} {front names : List Text} {name : Text}
  {l m : Location}

/-! ## Removing one entry -/

theorem run_detach (p : Path) (d : Disk) : (detach p).run.run d = (match d.reach false p with
    | .found l _ => modify (·.erase l)
    | .absent .. => fail p .missing
    | destination => fail p (destination.problem?.getD .missing) : DiskChange Unit).run.run d := rfl

theorem detach_found {l : Location} {e : Entry} (h : d.reach false p = .found l e) :
    (detach p).run.run d = (.ok (), d.erase l) := by
  rw [run_detach, h]
  rfl

theorem run_remove (p : Path) (d : Disk) : (remove p).run.run d = (do
    if let .found l .directory := d.reach false p then modify (·.clear l)
    detach p : DiskChange Unit).run.run d := rfl

theorem remove_directory {l : Location} (h : d.reach false p = .found l .directory) :
    (remove p).run.run d = (detach p).run.run (d.clear l) := by
  rw [run_remove, h]
  rfl

theorem remove_other {l : Location} {e : Entry} (h : d.reach false p = .found l e)
    (he : e ≠ .directory) : (remove p).run.run d = (detach p).run.run d := by
  rw [run_remove, h]
  cases e with
  | directory => exact absurd rfl he
  | file => rfl
  | link => rfl

theorem remove_ok (h : d.IsTree) (hp : d.Enters p l) (hdots : name ≠ ['.', '.']) {e : Entry}
    (hget : d.get? (l ++ [name]) = some e) :
    ∃ d', (remove ⟨p.anchor, p.names ++ [name]⟩).run.run d = (.ok (), d') ∧ d'.IsTree ∧
      d'.Enters p l ∧ ∀ v, d'.get? v = if l ++ [name] <+: v then none else d.get? v := by
  have hne : l ++ [name] ≠ [] := by simp
  have hout : ∀ v, (l <+: v → v = l) → ¬l ++ [name] <+: v := by
    intro v hv hpre
    have hlen := hpre.length_le
    rw [hv ((List.prefix_append l [name]).trans hpre), List.length_append, List.length_singleton] at hlen
    omega
  have hreach : d.reach false ⟨p.anchor, p.names ++ [name]⟩ = .found (l ++ [name]) e :=
    reach_found hp.find hdots hget (by simp)
  by_cases he : e = .directory
  · subst he
    have hkept : ∀ v, ¬(l ++ [name] <+: v ∧ v ≠ l ++ [name]) →
        (d.clear (l ++ [name])).get? v = d.get? v := by
      intro v hv
      rw [get?_clear, if_neg hv]
    have hp' : (d.clear (l ++ [name])).Enters p l :=
      hp.congr fun v hv => hkept v fun hin => hout v hv hin.1
    have hget' := (hkept _ fun hin => hin.2 rfl).trans hget
    have hreach' : (d.clear (l ++ [name])).reach false ⟨p.anchor, p.names ++ [name]⟩
        = .found (l ++ [name]) .directory := reach_found hp'.find hdots hget' (by simp)
    have hall : ∀ v, ((d.clear (l ++ [name])).erase (l ++ [name])).get? v
        = if l ++ [name] <+: v then none else d.get? v := by
      intro v
      rw [get?_erase hne]
      split
      · rfl
      · next hnot => exact hkept v fun hin => hnot hin.1
    refine ⟨_, (remove_directory hreach).trans (detach_found hreach'), h.clear.erase hne, ?_, hall⟩
    exact hp.congr fun v hv => (hall v).trans (if_neg (hout v hv))
  · have hall : ∀ v, (d.erase (l ++ [name])).get? v = if l ++ [name] <+: v then none else d.get? v :=
      fun v => get?_erase hne
    refine ⟨_, (remove_other hreach he).trans (detach_found hreach), h.erase hne, ?_, hall⟩
    exact hp.congr fun v hv => (hall v).trans (if_neg (hout v hv))

/-! ## Removing all of them -/

theorem not_below_sibling {v : Location} {a b : Text} (hne : a ≠ b) (hv : l ++ [a] <+: v) :
    ¬l ++ [b] <+: v := by
  rintro ⟨more, hb⟩
  obtain ⟨less, ha⟩ := hv
  rw [← ha, List.append_assoc, List.append_assoc, List.append_cancel_left_eq,
    List.singleton_append, List.singleton_append, List.cons.injEq] at hb
  exact hne hb.1.symm

theorem remove_all (h : d.IsTree) (hp : d.Enters p l) (entries : List Text) (hnodup : entries.Nodup)
    (hdots : ∀ c ∈ entries, c ≠ ['.', '.']) (hthere : ∀ c ∈ entries, ∃ e, d.get? (l ++ [c]) = some e) :
    ∃ d', (entries.forM fun c => remove ⟨p.anchor, p.names ++ [c]⟩).run.run d = (.ok (), d') ∧
      d'.IsTree ∧ d'.Enters p l ∧ (∀ c ∈ entries, ∀ v, l ++ [c] <+: v → d'.get? v = none) ∧
      ∀ v, (∀ c ∈ entries, ¬l ++ [c] <+: v) → d'.get? v = d.get? v := by
  induction entries generalizing d with
  | nil => exact ⟨d, rfl, h, hp, fun c hc => by simp at hc, fun v _ => rfl⟩
  | cons c entries ih =>
    obtain ⟨hfresh, hnodup⟩ := List.nodup_cons.1 hnodup
    obtain ⟨e, hget⟩ := hthere c List.mem_cons_self
    obtain ⟨d₁, hrun₁, htree₁, hp₁, hget₁⟩ := remove_ok h hp (hdots c List.mem_cons_self) hget
    have hthere₁ : ∀ c' ∈ entries, ∃ e, d₁.get? (l ++ [c']) = some e := by
      intro c' hc'
      have hne : c' ≠ c := fun heq => hfresh (heq ▸ hc')
      rw [hget₁, if_neg (not_below_sibling hne List.prefix_rfl)]
      exact hthere c' (List.mem_cons_of_mem _ hc')
    obtain ⟨d', hrun, htree, hp', hgone, hkept⟩ := ih htree₁ hp₁ hnodup
      (fun c' hc' => hdots c' (List.mem_cons_of_mem _ hc')) hthere₁
    refine ⟨d', ?_, htree, hp', ?_, ?_⟩
    · exact (bind_ok hrun₁).trans hrun
    · intro c' hc' v hv
      rcases List.mem_cons.1 hc' with rfl | hc'
      · by_cases hlater : ∃ c'' ∈ entries, l ++ [c''] <+: v
        · obtain ⟨c'', hc'', hv'⟩ := hlater
          exact hgone c'' hc'' v hv'
        · rw [hkept v fun c'' hc'' hv' => hlater ⟨c'', hc'', hv'⟩, hget₁, if_pos hv]
      · exact hgone c' hc' v hv
    · intro v hv
      rw [hkept v fun c' hc' => hv c' (List.mem_cons_of_mem _ hc'), hget₁,
        if_neg (hv c List.mem_cons_self)]

/-! ## Emptying -/

theorem run_emptyDirectory (p : Path) (d : Disk) :
    (emptyDirectory p).run.run d = (match d.find? p with
      | none => do
        ensureDirectories p
        return 0
      | some (l, .directory) => do
        let names := Text.sortBy Text.le (d.children l)
        names.forM fun name => remove (p.append ⟨.here, [name]⟩)
        return names.length
      | some (_, .file _) | some (_, .link _) => fail p .notDirectory :
        DiskChange Nat).run.run d := rfl

theorem emptyDirectory_missing (h : d.find? p = none) :
    (emptyDirectory p).run.run d = (do
      ensureDirectories p
      return 0 : DiskChange Nat).run.run d := by
  rw [run_emptyDirectory, h]

theorem emptyDirectory_found {l : Location} (h : d.find? p = some (l, .directory)) :
    (emptyDirectory p).run.run d = (do
      (Text.sortBy Text.le (d.children l)).forM fun c => remove ⟨p.anchor, p.names ++ [c]⟩
      return (Text.sortBy Text.le (d.children l)).length : DiskChange Nat).run.run d := by
  rw [run_emptyDirectory, h]
  rfl

theorem find?_of_absent (h : d.IsTree) (hfront : d.find? ⟨anchor, front⟩ = some (m, .directory))
    (hnames : ∀ n ∈ names, n ≠ ['.', '.']) (hplaces : ∀ v ∈ places m names, d.Passable v)
    (habsent : d.get? (m ++ names) = none) : d.find? ⟨anchor, front ++ names⟩ = none := by
  rcases List.eq_nil_or_concat names with rfl | ⟨outer, last, rfl⟩
  · rw [List.append_nil, h.get?_of_find? hfront] at habsent
    cases habsent
  rw [List.concat_eq_append] at hnames hplaces habsent ⊢
  rw [places_append] at hplaces
  rw [← List.append_assoc] at habsent ⊢
  have hlinks : ∀ v ∈ places m outer, ∀ t, d.get? v ≠ some (.link t) :=
    fun v hv => (hplaces v (List.mem_append_left _ hv)).not_link
  rw [find?]
  by_cases houter : ∀ v ∈ places m outer, d.get? v = some .directory
  · have hend : endPlace m outer = m ++ outer :=
      endPlace_of_no_dots fun n hn => hnames n (List.mem_append_left _ hn)
    have hfound := find?_of_places hfront houter
    rw [hend] at hfound
    rw [reach_absent hfound (hnames last (by simp)) habsent]
  · rcases reach_of_not_places h hfront (List.cons_ne_nil last []) hlinks houter true
      with ⟨hlost, -⟩ | ⟨hblocked, -⟩
    · rw [hlost]
    · rw [hblocked]

/-- What emptying a directory leaves: it is there with nothing below it, and all else stays but for the
directories made on the way. -/
structure Emptied (d : Disk) (l : Location) (d' : Disk) : Prop where
  tree : d'.IsTree
  lead : ∀ v, v <+: l → d'.get? v = some .directory
  below : ∀ v, l <+: v → v ≠ l → d'.get? v = none
  frame : ∀ v, ¬v <+: l → ¬l <+: v → d'.get? v = d.get? v

theorem mem_sortBy_children (h : d.IsTree) {c : Text} :
    c ∈ Text.sortBy Text.le (d.children l) ↔ ∃ e, d.get? (l ++ [c]) = some e := by
  rw [Text.mem_sortBy, mem_children h]

theorem emptied_of_directory (h : d.IsTree) (hp : d.Enters p l) :
    ∃ n d', (emptyDirectory p).run.run d = (.ok n, d') ∧ Emptied d l d' ∧ d'.Enters p l := by
  obtain ⟨d', hrun, htree, hp', hgone, hkept⟩ := remove_all h hp
    (Text.sortBy Text.le (d.children l)) ((Text.sortBy_perm _).nodup_iff.2 (nodup_children h))
    (fun c hc => by
      obtain ⟨e, hget⟩ := (mem_sortBy_children h).1 hc
      exact (h.isEntryName hget (by simp)).ne_dots)
    fun c hc => (mem_sortBy_children h).1 hc
  refine ⟨(Text.sortBy Text.le (d.children l)).length, d', ?_, ⟨htree, ?_, ?_, ?_⟩, hp'⟩
  · rw [emptyDirectory_found hp.find]
    exact bind_ok hrun
  · exact fun v hv => htree.directory_of_prefix (htree.get?_of_find? hp'.find) hv
  · rintro v ⟨below, rfl⟩ hne
    have hbelow : below ≠ [] := by
      rintro rfl
      exact hne (List.append_nil _)
    obtain ⟨c, more, rfl⟩ := List.exists_cons_of_ne_nil hbelow
    by_cases hc : c ∈ Text.sortBy Text.le (d.children l)
    · exact hgone c hc _ ⟨more, by simp⟩
    · rw [hkept]
      · refine Option.eq_none_iff_forall_ne_some.2 fun e hget => ?_
        exact hc ((mem_sortBy_children h).2 (h.exists_get?_snoc hget))
      · intro c' hc' hpre
        by_cases heq : c' = c
        · exact hc (heq ▸ hc')
        · exact not_below_sibling heq hpre ⟨more, by simp⟩
  · intro v _ hv
    exact hkept v fun c _ hpre => hv ((List.prefix_append _ _).trans hpre)

theorem emptied_of_absent (h : d.IsTree) (hfront : d.find? ⟨anchor, front⟩ = some (m, .directory))
    (hnames : ∀ n ∈ names, IsEntryName n) (hplaces : ∀ v ∈ places m names, d.Passable v)
    (habsent : d.get? (m ++ names) = none) :
    ∃ n d', (emptyDirectory ⟨anchor, front ++ names⟩).run.run d = (.ok n, d') ∧
      Emptied d (m ++ names) d' ∧ d'.Enters ⟨anchor, front ++ names⟩ (m ++ names) := by
  have hdots : ∀ n ∈ names, n ≠ ['.', '.'] := fun n hn => (hnames n hn).ne_dots
  -- nothing stands where the directory is due, nor below that
  have hnone : ∀ v, m ++ names <+: v → d.get? v = none := by
    rintro v ⟨more, rfl⟩
    by_cases hnil : more = []
    · rw [hnil, List.append_nil, habsent]
    · exact h.get?_eq_none_of_prefix (by simp [habsent]) hnil
  obtain ⟨d', hrun, htree, hget, hfind⟩ :=
    ensureDirectories_below h hfront (fun n hn => (hnames n hn).toIsName) hplaces
  rw [endPlace_of_no_dots hdots] at hfind
  have hdir := htree.get?_of_find? hfind
  refine ⟨0, d', ?_, ⟨htree, ?_, ?_, ?_⟩, ?_⟩
  · rw [emptyDirectory_missing (find?_of_absent h hfront hdots hplaces habsent), bind_ok hrun]
    rfl
  · exact fun v hv => htree.directory_of_prefix hdir hv
  · intro v hv hne
    rw [hget, if_neg, hnone v hv]
    intro hin
    obtain ⟨lead, -, hpre, rfl⟩ := (mem_places_of_no_dots hdots).1 hin
    have hback : m ++ lead <+: m ++ names := (List.prefix_append_right_inj m).2 hpre
    exact hne (hback.eq_of_length_le hv.length_le)
  · intro v hv _
    rw [hget, if_neg]
    intro hin
    obtain ⟨lead, -, hpre, rfl⟩ := (mem_places_of_no_dots hdots).1 hin
    exact hv ((List.prefix_append_right_inj m).2 hpre)
  · have hkept := shrinks_of_passable hplaces hget
    refine htree.enters_append (find?_of_shrinks hkept hfront) (fun v hv hpre => ?_) hdir
    exact get?_of_passes (passes_of_shrinks hkept hfront hv) (hnone v hpre)

/-- A directory that is there, or can be made, is there afterwards with nothing below it, and the path
still leads to it. -/
theorem emptyDirectory_site (h : d.IsTree) (hsite : d.Site p l) :
    ∃ n d', (emptyDirectory p).run.run d = (.ok n, d') ∧ Emptied d l d' ∧ d'.Enters p l := by
  have hpass : ∀ v, v <+: l → d.Passable v := fun v hv => hsite.passable h hv
  cases hsite with
  | there hp => exact emptied_of_directory h hp
  | @absent front more name m hnames hfront hfree hentry hl =>
    obtain ⟨anchor, names⟩ := p
    subst hnames hl
    refine emptied_of_absent h hfront hentry (fun v hv => hpass v ?_) (h.get?_of_free hfree more)
    obtain ⟨lead, -, hpre, rfl⟩ := (mem_places_of_no_dots fun n hn => (hentry n hn).ne_dots).1 hv
    exact (List.prefix_append_right_inj m).2 hpre

/-- A directory whose places are directories or still free is there afterwards with nothing below it,
and all else stays but for the directories made on the way. -/
theorem emptyDirectory_ok (h : d.IsTree) (hanchor : p.anchor ≠ .here)
    (hnames : ∀ n ∈ p.names, IsEntryName n) (hplaces : ∀ v ∈ places [] p.names, d.Passable v) :
    ∃ n d', (emptyDirectory p).run.run d = (.ok n, d') ∧ Emptied d p.names d' := by
  by_cases hdir : d.get? p.names = some .directory
  · obtain ⟨n, d', hrun, hempty, -⟩ := emptied_of_directory h (h.enters hanchor hdir)
    exact ⟨n, d', hrun, hempty⟩
  · have hne : p.names ≠ [] := by
      intro heq
      rw [heq] at hdir
      exact hdir rfl
    have hlast := hplaces _ (endPlace_mem hne)
    rw [endPlace_of_no_dots fun n hn => (hnames n hn).ne_dots] at hlast
    obtain ⟨n, d', hrun, hempty, -⟩ := emptied_of_absent h (find?_root hanchor) hnames hplaces
      (hlast.resolve_right hdir)
    exact ⟨n, d', hrun, hempty⟩

end NestClient.DiskChange
