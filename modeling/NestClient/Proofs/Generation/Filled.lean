import NestClient.Proofs.Generation.Writing

/-! Filling a directory with files, on two trees at once.

* `Filled`: what a disk holds while a directory is filled; all that is neither on the way to it nor
  below it stays as it was.
* `alongside_synchronize`: both disks come to hold the same below the directory, whatever stood there
  before. -/

namespace NestClient

open Disk DiskChange NestClient.Action

variable {d d' e e' : Disk} {l : Location}

/-! ## The output directory while it is filled -/

/-- A disk while a directory is filled: the directory is there, no link stands below it, and all that is
neither on the way to it nor below it is as it was. -/
structure Filled (d : Disk) (l : Location) (e : Disk) : Prop where
  tree : e.IsTree
  lead : ∀ v, v <+: l → e.get? v = some .directory
  links : ∀ v, l <+: v → ∀ t, e.get? v ≠ some (.link t)
  frame : ∀ v, ¬v <+: l → ¬l <+: v → e.get? v = d.get? v

/-- Two disks while they are filled with the same. -/
structure FilledAlike (d d' : Disk) (l : Location) (e e' : Disk) : Prop where
  left : Filled d l e
  right : Filled d' l e'
  below : ∀ v, l <+: v → e.get? v = e'.get? v

/-- A place that is on the way to a location or below it. -/
def Near (l v : Location) : Prop := v <+: l ∨ l <+: v

theorem FilledAlike.near (h : FilledAlike d d' l e e') {v : Location} (hv : Near l v) :
    e.get? v = e'.get? v := by
  rcases hv with hv | hv
  · rw [h.left.lead v hv, h.right.lead v hv]
  · exact h.below v hv

theorem Filled.not_link_of_near (h : Filled d l e) {v : Location} (hv : Near l v) (t : Text) :
    e.get? v ≠ some (.link t) := by
  rcases hv with hv | hv
  · rw [h.lead v hv]
    simp
  · exact h.links v hv t

theorem Filled.written (h : Filled d l e) {p : Path} {contents : Text} {e₁ : Disk}
    (hbelow : l <+: target p ∧ target p ≠ l) (hnear : ∀ v ∈ leading p, Near l v)
    (hw : Written e p contents e₁) : Filled d l e₁ where
  tree := hw.tree
  lead := by
    intro v hv
    have hne : v ≠ target p := by
      rintro rfl
      exact hbelow.2 (hv.eq_of_length_le hbelow.1.length_le)
    rw [hw.get?, if_neg hne, h.lead v hv, ite_self]
  links := by
    intro v hv t
    rw [hw.get?]
    split
    · simp
    · split
      · simp
      · exact h.links v hv t
  frame := by
    intro v hv hv'
    have hne : v ≠ target p := by
      rintro rfl
      exact hv' hbelow.1
    have hout : v ∉ leading p := fun hmem => (hnear v hmem).elim hv hv'
    rw [hw.get?, if_neg hne, if_neg hout, h.frame v hv hv']

/-- A name below the directory, as the files of clients have them. -/
theorem near_of_append {output : Path} (houtput : ∀ n ∈ output.names, n ≠ ['.', '.'])
    {names : List Text} (hne : names ≠ []) (hnames : ∀ n ∈ names, IsEntryName n) :
    (output.names <+: target (output.append ⟨.here, names⟩) ∧
        target (output.append ⟨.here, names⟩) ≠ output.names) ∧
      ∀ v ∈ leading (output.append ⟨.here, names⟩), Near output.names v := by
  have hall : ∀ n ∈ output.names ++ names, n ≠ ['.', '.'] := by
    intro n hn
    rcases List.mem_append.1 hn with hn | hn
    · exact houtput n hn
    · exact (hnames n hn).ne_dots
  have htarget : target (output.append ⟨.here, names⟩) = output.names ++ names := by
    rw [target, Path.append_here, endPlace_of_no_dots hall, List.nil_append]
  refine ⟨⟨?_, ?_⟩, ?_⟩
  · rw [htarget]
    exact List.prefix_append _ _
  · rw [htarget]
    simpa using hne
  · intro v hv
    rw [leading, Path.append_here, Path.parent] at hv
    obtain ⟨front, -, hpre, rfl⟩ :=
      (mem_places_of_no_dots fun n hn => hall n (List.dropLast_subset _ hn)).1 hv
    have hpre' := hpre.trans (List.dropLast_prefix _)
    exact List.prefix_or_prefix_of_prefix hpre' (List.prefix_append _ _)

theorem writable_congr {p : Path} (h : ∀ v ∈ leading p ++ [target p], e.get? v = e'.get? v)
    (hw : Writable e p) : Writable e' p where
  named := hw.named
  dots := hw.dots
  passable := fun v hv => by
    rw [Passable, ← h v (List.mem_append_left _ hv)]
    exact hw.passable v hv
  apart := hw.apart
  room := by
    rw [← h _ (List.mem_append_right _ List.mem_cons_self)]
    exact hw.room

/-- Writing the same file below the directory keeps the disks alike. -/
theorem FilledAlike.alongside_writeText {p : Path} {contents : Text}
    (h : FilledAlike d d' l e e') (hanchor : p.anchor ≠ .here)
    (hnames : ∀ n ∈ p.names, Path.IsName n) (hbelow : l <+: target p ∧ target p ≠ l)
    (hnear : ∀ v ∈ leading p, Near l v) :
    Alongside e e' (writeText p contents) (writeText p contents) fun _ => FilledAlike d d' l := by
  have hall : ∀ v ∈ leading p ++ [target p], Near l v := by
    intro v hv
    rcases List.mem_append.1 hv with hv | hv
    · exact hnear v hv
    · rw [List.mem_singleton.1 hv]
      exact .inr hbelow.1
  have hsame : ∀ v ∈ leading p ++ [target p], e.get? v = e'.get? v := fun v hv => h.near (hall v hv)
  have hwrite := @NestClient.alongside_writeText e e' p contents h.left.tree h.right.tree hanchor
    hnames (fun v hv => h.left.not_link_of_near (hall v hv))
    (fun v hv => h.right.not_link_of_near (hall v hv))
    ⟨writable_congr hsame, writable_congr fun v hv => (hsame v hv).symm⟩
  refine hwrite.mono ?_
  rintro - e₁ e₁' ⟨-, hw, hw'⟩
  refine ⟨h.left.written hbelow hnear hw, h.right.written hbelow hnear hw', fun v hv => ?_⟩
  rw [hw.get?, hw'.get?, h.below v hv]

/-! ## Filling the output directory -/

def GeneratedFile.Placed (f : GeneratedFile) : Prop :=
  ∃ names, names ≠ [] ∧ (∀ n ∈ names, IsEntryName n) ∧ Path.ofText f.path = ⟨.here, names⟩

theorem FilledAlike.alongside_file {output : Path} (h : FilledAlike d d' output.names e e')
    (hanchor : output.anchor ≠ .here) (hnames : ∀ n ∈ output.names, IsEntryName n)
    {f : GeneratedFile} (hf : f.Placed) :
    Alongside e e' (writeText (output.append (.ofText f.path)) f.contents)
      (writeText (output.append (.ofText f.path)) f.contents) fun _ =>
        FilledAlike d d' output.names := by
  obtain ⟨names, hne, hentry, hpath⟩ := hf
  rw [hpath]
  obtain ⟨hbelow, hnear⟩ := near_of_append (fun n hn => (hnames n hn).ne_dots) hne hentry
  have hall : ∀ n ∈ (output.append ⟨.here, names⟩).names, Path.IsName n := by
    intro n hn
    rcases List.mem_append.1 hn with hn | hn
    · exact (hnames n hn).toIsName
    · exact (hentry n hn).toIsName
  have hanchor' : (output.append ⟨.here, names⟩).anchor ≠ .here := hanchor
  exact h.alongside_writeText hanchor' hall hbelow hnear

theorem alongside_synchronize {output : Path} {files : List GeneratedFile} (h : d.IsTree)
    (h' : d'.IsTree) (hanchor : output.anchor ≠ .here) (hnames : ∀ n ∈ output.names, IsEntryName n)
    (hpass : ∀ v ∈ places [] output.names, d.Passable v)
    (hpass' : ∀ v ∈ places [] output.names, d'.Passable v) (hfiles : ∀ f ∈ files, f.Placed) :
    Alongside d d' (synchronize output files) (synchronize output files) fun _ =>
      FilledAlike d d' output.names := by
  obtain ⟨n, e, hrun, htree, hlead, hnone, hframe⟩ := emptyDirectory_ok h hanchor hnames hpass
  obtain ⟨n', e', hrun', htree', hlead', hnone', hframe'⟩ :=
    emptyDirectory_ok h' hanchor hnames hpass'
  have hlinks : ∀ v, output.names <+: v → ∀ t, e.get? v ≠ some (.link t) := by
    intro v hv t
    by_cases hne : v = output.names
    · rw [hne, hlead _ List.prefix_rfl]
      simp
    · rw [hnone v hv hne]
      simp
  have hbelow : ∀ v, output.names <+: v → e.get? v = e'.get? v := by
    intro v hv
    by_cases hne : v = output.names
    · rw [hne, hlead _ List.prefix_rfl, hlead' _ List.prefix_rfl]
    · rw [hnone v hv hne, hnone' v hv hne]
  have hfilled : FilledAlike d d' output.names e e' :=
    ⟨⟨htree, hlead, hlinks, hframe⟩,
      ⟨htree', hlead', fun v hv t => by rw [← hbelow v hv]; exact hlinks v hv t, hframe'⟩, hbelow⟩
  have hempty : ∀ s : Session, s.disk = d →
      (emptyDirectory output).run.run s = (.ok n, { s with disk := e }) := by
    rintro s rfl
    exact run_change_ok hrun
  have hempty' : ∀ s : Session, s.disk = d' →
      (emptyDirectory output).run.run s = (.ok n', { s with disk := e' }) := by
    rintro s rfl
    exact run_change_ok hrun'
  refine Alongside.of_ok hempty hempty' ?_
  refine (alongside_report (R := fun _ => FilledAlike d d' output.names) hfilled).bind ?_
  intro _ e e' hfilled
  refine alongside_mapM files ?_ hfilled
  intro f hf e e' hfilled
  refine (hfilled.alongside_file hanchor hnames (hfiles f hf)).bind fun _ e e' hfilled => ?_
  refine (alongside_report (R := fun _ => FilledAlike d d' output.names) hfilled).bind ?_
  exact fun _ e e' hfilled => alongside_pure hfilled

end NestClient
