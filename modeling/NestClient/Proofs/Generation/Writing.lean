import NestClient.Generation
import NestClient.Proofs.Disk.Empty
import NestClient.Proofs.Disk.Plain
import NestClient.Proofs.Session

/-! Writing texts into a tree.

* `leading`, `target`: the places of the directories on the way to a file, and where it stands.
* `Writable`: the way is free. `alongside_writeText`: writing goes alike on two trees where it is, or is
  not, on both.
* `grows_writeText`: what was written is found, and nothing else has changed.
* `plain_writeText`: a directory on the way has no link in it, if it had none before or had to be made. -/

namespace NestClient

open Disk DiskChange NestClient.Action Steps

/-- The places of the directories that lead to a file. -/
def leading (p : Path) : List Location := places [] p.parent.names

/-- The place of a file. -/
def target (p : Path) : Location := endPlace [] p.names

/-- Directories can lead to a file, and there is room for it. -/
structure Writable (d : Disk) (p : Path) : Prop where
  named : p.names ≠ []
  dots : p.name ≠ ['.', '.']
  passable : ∀ v ∈ leading p, d.Passable v
  apart : target p ∉ leading p
  room : d.get? (target p) ≠ some .directory

/-- What a disk holds once a file is written, with the directories that lead to it. -/
structure Written (d : Disk) (p : Path) (contents : Text) (e : Disk) : Prop where
  tree : e.IsTree
  get? : ∀ v, e.get? v = if v = target p then some (.file (Utf8.encode contents))
    else if v ∈ leading p then some .directory else d.get? v

variable {d d' : Disk} {p : Path} {contents : Text}

theorem names_eq (h : p.names ≠ []) : p.names = p.parent.names ++ [p.name] := by
  obtain ⟨front, last, hnames⟩ := (List.eq_nil_or_concat p.names).resolve_left h
  rw [List.concat_eq_append] at hnames
  simp [Path.parent, Path.name, hnames]

theorem target_eq (h : p.names ≠ []) : target p = place (endPlace [] p.parent.names) p.name := by
  rw [target, names_eq h, endPlace_append]
  rfl

theorem places_eq (h : p.names ≠ []) : places [] p.names = leading p ++ [target p] := by
  rw [target_eq h, leading]
  conv => lhs; rw [names_eq h, places_append]
  rfl

/-- Behind a directory, directories come into being, and then a file does. -/
theorem writeText_below {anchor : Anchor} {front outer : List Text} {name : Text} {l : Location}
    (h : d.IsTree) (hfront : d.find? ⟨anchor, front⟩ = some (l, .directory))
    (houter : ∀ n ∈ outer, Path.IsName n) (hname : IsEntryName name)
    (hpass : ∀ v ∈ places l outer, d.Passable v) (hapart : endPlace l outer ++ [name] ∉ places l outer)
    (hroom : d.get? (endPlace l outer ++ [name]) ≠ some .directory)
    (hlink : ∀ t, d.get? (endPlace l outer ++ [name]) ≠ some (.link t)) :
    ∃ e, e.IsTree ∧
      (∀ v, e.get? v = if v = endPlace l outer ++ [name] then some (.file (Utf8.encode contents))
        else if v ∈ places l outer then some .directory else d.get? v) ∧
      ∀ s : Session, s.disk = d →
        (writeText ⟨anchor, front ++ outer ++ [name]⟩ contents).run.run s
          = (.ok (), { s with disk := e }) := by
  obtain ⟨d₁, hrun₁, htree₁, hget₁, hfind₁⟩ := ensureDirectories_below h hfront houter hpass
  have hkept : d₁.get? (endPlace l outer ++ [name]) = d.get? (endPlace l outer ++ [name]) := by
    rw [hget₁, if_neg hapart]
  obtain ⟨e, hrun, htree, hget⟩ := writeBytes_ok htree₁ hfind₁ hname (by rw [hkept]; exact hroom)
    (fun t => by rw [hkept]; exact hlink t) (Utf8.encode contents)
  refine ⟨e, htree, fun v => by rw [hget, hget₁], ?_⟩
  rintro s rfl
  have hparent : (⟨anchor, front ++ outer ++ [name]⟩ : Path).parent = ⟨anchor, front ++ outer⟩ := by
    rw [Path.parent, List.dropLast_concat]
  rw [← hparent] at hrun₁
  exact (bind_ok (run_change_ok hrun₁)).trans (run_change_ok hrun)

/-- A file that is written below a directory by plain names comes to stand there, and nothing changes but
on the way to it. -/
theorem writeText_enters {l : Location} {names : List Text} (h : d.IsTree) (hp : d.Enters p l)
    (hne : names ≠ []) (hnames : ∀ n ∈ names, IsEntryName n)
    (hpass : ∀ lead, lead ≠ [] → lead <+: names → lead ≠ names → d.Passable (l ++ lead))
    (hroom : d.get? (l ++ names) ≠ some .directory)
    (hlink : ∀ t, d.get? (l ++ names) ≠ some (.link t)) :
    ∃ e, e.IsTree ∧ e.Enters p l ∧ Does (writeText ⟨p.anchor, p.names ++ names⟩ contents) d () e ∧
      e.get? (l ++ names) = some (.file (Utf8.encode contents)) ∧
      ∀ v, (∀ lead, lead ≠ [] → lead <+: names → v ≠ l ++ lead) → e.get? v = d.get? v := by
  obtain ⟨outer, last, rfl⟩ := (List.eq_nil_or_concat names).resolve_left hne
  rw [List.concat_eq_append] at hnames hpass hroom hlink ⊢
  have houter : ∀ n ∈ outer, IsEntryName n := fun n hn => hnames n (List.mem_append_left _ hn)
  have hdots : ∀ n ∈ outer, n ≠ ['.', '.'] := fun n hn => (houter n hn).ne_dots
  have hend : endPlace l outer ++ [last] = l ++ (outer ++ [last]) := by
    rw [endPlace_of_no_dots hdots, List.append_assoc]
  have hplaces : ∀ v ∈ places l outer, ∃ lead, lead ≠ [] ∧
      (lead <+: outer ++ [last] ∧ lead ≠ outer ++ [last]) ∧ v = l ++ lead := by
    intro v hv
    obtain ⟨lead, hlead, hpre, hv⟩ := (mem_places_of_no_dots hdots).1 hv
    exact ⟨lead, hlead, prefix_concat_ne_iff.2 hpre, hv⟩
  have hpass' : ∀ v ∈ places l outer, d.Passable v := by
    intro v hv
    obtain ⟨lead, hlead, hpre, rfl⟩ := hplaces v hv
    exact hpass lead hlead hpre.1 hpre.2
  have hapart : endPlace l outer ++ [last] ∉ places l outer := by
    intro hin
    obtain ⟨lead, -, hpre, heq⟩ := hplaces _ hin
    rw [hend] at heq
    exact hpre.2 (List.append_cancel_left heq).symm
  obtain ⟨e, htree, hget, hrun⟩ := @writeText_below d contents _ _ _ _ _ h hp.find
    (fun n hn => (houter n hn).toIsName) (hnames last (by simp)) hpass' hapart
    (hend ▸ hroom) (hend ▸ hlink)
  rw [hend] at hget
  have hkept : ∀ v, (∀ lead, lead ≠ [] → lead <+: outer ++ [last] → v ≠ l ++ lead) →
      e.get? v = d.get? v := by
    intro v hv
    rw [hget, if_neg (hv _ (by simp) List.prefix_rfl), if_neg]
    intro hin
    obtain ⟨lead, hlead, hpre, heq⟩ := hplaces v hin
    exact hv lead hlead hpre.1 heq
  have henters : e.Enters p l := by
    refine hp.congr fun v hv => hkept v ?_
    rintro lead hlead - rfl
    exact hlead (List.append_right_eq_self.1 (hv (List.prefix_append l lead)))
  refine ⟨e, htree, henters, ?_, (hget _).trans (if_pos rfl), hkept⟩
  rw [← List.append_assoc]
  exact does_of_run hrun

section

variable (h : d.IsTree) (hanchor : p.anchor ≠ .here) (hnames : ∀ n ∈ p.names, Path.IsName n)

include h hanchor hnames

theorem writeText_ok (hlink : ∀ t, d.get? (target p) ≠ some (.link t)) (hw : Writable d p) :
    ∃ e, Written d p contents e ∧
      ∀ s : Session, s.disk = d →
        (writeText p contents).run.run s = (.ok (), { s with disk := e }) := by
  have htarget : target p = endPlace [] p.parent.names ++ [p.name] := by
    rw [target_eq hw.named, place_eq hw.dots]
  have hname : IsEntryName p.name := by
    refine ⟨hnames p.name ?_, hw.dots⟩
    rw [names_eq hw.named]
    exact List.mem_append_right _ List.mem_cons_self
  have hparent : ∀ n ∈ p.parent.names, Path.IsName n :=
    fun n hn => hnames n (List.dropLast_subset _ hn)
  have hpath : (⟨p.anchor, [] ++ p.parent.names ++ [p.name]⟩ : Path) = p := by
    rw [List.nil_append, ← names_eq hw.named]
  obtain ⟨e, htree, hget, hrun⟩ := @writeText_below d contents _ _ _ _ _ h (find?_root hanchor) hparent
    hname hw.passable (htarget ▸ hw.apart) (htarget ▸ hw.room) (htarget ▸ hlink)
  rw [← htarget] at hget
  rw [hpath] at hrun
  exact ⟨e, ⟨htree, hget⟩, hrun⟩

theorem writeText_error (hlinks : ∀ v ∈ leading p, ∀ t, d.get? v ≠ some (.link t))
    (hw : ¬Writable d p) (s : Session) (hs : s.disk = d) :
    ∃ f t, (writeText p contents).run.run s = (.error f, t) := by
  subst hs
  have hparent : ∀ n ∈ p.parent.names, Path.IsName n :=
    fun n hn => hnames n (List.dropLast_subset _ hn)
  by_cases hpass : ∀ v ∈ leading p, s.disk.Passable v
  · obtain ⟨d₁, hrun₁, htree₁, hget₁⟩ := ensureDirectories_ok h (p := p.parent) hanchor hparent hpass
    have hlead₁ : ∀ v ∈ leading p, d₁.get? v = some .directory :=
      fun v hv => (hget₁ v).trans (if_pos hv)
    -- what keeps the file from being written is a directory in its place
    have hplaces : ∀ v ∈ places [] p.names, d₁.get? v = some .directory := by
      by_cases hnamed : p.names = []
      · rw [hnamed]
        simp [places]
      · rw [places_eq hnamed]
        intro v hv
        rcases List.mem_append.1 hv with hv | hv
        · exact hlead₁ v hv
        · rw [List.mem_singleton.1 hv]
          refine Classical.byContradiction fun hnot => hw ⟨hnamed, ?_, hpass, ?_, ?_⟩
          · intro hdots
            rw [target_eq hnamed, place, if_pos hdots] at hnot
            have hfind := find?_of_places (find?_root hanchor) hlead₁
            exact hnot (htree₁.directory_dropLast (htree₁.get?_of_find? hfind))
          · exact fun hmem => hnot (hlead₁ _ hmem)
          · intro hdir
            rw [hget₁] at hnot
            split at hnot
            · exact hnot rfl
            · exact hnot hdir
    exact ⟨_, _, (bind_ok (run_change_ok hrun₁)).trans
      (run_change_error (writeBytes_directory (find?_of_places (find?_root hanchor) hplaces) _))⟩
  · obtain ⟨f, d₁, hrun⟩ := ensureDirectories_error h (p := p.parent) hanchor hparent hlinks hpass
    exact ⟨_, _, bind_error (run_change_error hrun)⟩

end

/-- Writing goes alike on two trees where the way is free on both or on none. -/
theorem alongside_writeText (h : d.IsTree) (h' : d'.IsTree) (hanchor : p.anchor ≠ .here)
    (hnames : ∀ n ∈ p.names, Path.IsName n)
    (hlinks : ∀ v ∈ leading p ++ [target p], ∀ t, d.get? v ≠ some (.link t))
    (hlinks' : ∀ v ∈ leading p ++ [target p], ∀ t, d'.get? v ≠ some (.link t))
    (hw : Writable d p ↔ Writable d' p) :
    Alongside d d' (writeText p contents) (writeText p contents) fun _ e e' =>
      Writable d p ∧ Written d p contents e ∧ Written d' p contents e' := by
  have hlast : target p ∈ leading p ++ [target p] := List.mem_append_right _ List.mem_cons_self
  intro s s' hs hs'
  by_cases hfree : Writable d p
  · obtain ⟨e, hwritten, hrun⟩ := writeText_ok h hanchor hnames (hlinks _ hlast) hfree
    obtain ⟨e', hwritten', hrun'⟩ := writeText_ok h' hanchor hnames (hlinks' _ hlast) (hw.1 hfree)
    exact .inl ⟨(), _, _, hrun s hs, hrun' s' hs', hfree, hwritten, hwritten'⟩
  · obtain ⟨f, t, hrun⟩ := writeText_error h hanchor hnames
      (fun v hv => hlinks v (List.mem_append_left _ hv)) hfree s hs
    obtain ⟨f', t', hrun'⟩ := writeText_error h' hanchor hnames
      (fun v hv => hlinks' v (List.mem_append_left _ hv)) (fun hfree' => hfree (hw.2 hfree')) s' hs'
    exact .inr ⟨f, f', t, t', hrun, hrun'⟩

/-- What was written is found. Directories have come into being, and nothing else has changed. -/
theorem grows_writeText {u : Unit} {e : Disk} (h : Gives (writeText p contents) d u e) :
    ∃ l, e.find? p = some (l, .file (Utf8.encode contents)) ∧ Grows (· = l) d e := by
  obtain ⟨_, m, hmake, hwrite⟩ := h.of_bind
  obtain ⟨l, hfind, hgrows⟩ := grows_writeBytes hwrite.of_change
  have hlead := @grows_ensureDirectories (· = l) p.parent d
  rw [hmake.of_change] at hlead
  exact ⟨l, hfind, hlead.trans hgrows⟩

/-- A directory that a file has been written below has no link in it if it had none before, or was not
there. -/
theorem plain_writeText {output : Path} {names : List Text} {u : Unit} {e : Disk}
    (hrooted : d.LinksRooted) (hne : names ≠ []) (hdots : ∀ n ∈ output.names ++ names, n ≠ ['.', '.'])
    (hplain : d.Plain output ∨ d.find? output = none)
    (h : Gives (writeText ⟨output.anchor, output.names ++ names⟩ contents) d u e) :
    e.LinksRooted ∧ e.Plain output := by
  obtain ⟨_, m, hmake, hwrite⟩ := h.of_bind
  obtain ⟨l, -, hgrows⟩ := grows_writeBytes hwrite.of_change
  have hmade := hmake.of_change
  let around : Path := ⟨output.anchor, output.names ++ names.dropLast⟩
  have hparent : (⟨output.anchor, output.names ++ names⟩ : Path).parent = around := by
    rw [Path.parent, List.dropLast_append_of_ne_nil hne]
  rw [hparent] at hmade
  have hlead := @grows_ensureDirectories (fun _ => False) around d
  rw [hmade] at hlead
  refine ⟨(hrooted.grows hlead).grows hgrows, Plain.grows ?_ hgrows⟩
  rcases hplain with hplain | hnone
  · exact hplain.grows hlead
  · have hdots' : ∀ n ∈ around.names, n ≠ ['.', '.'] := fun n hn =>
      hdots n (((List.append_sublist_append_left _).2 (List.dropLast_sublist names)).subset hn)
    exact plain_ensureDirectories (p := around) hrooted hdots' hmade (List.prefix_append _ _) hnone

end NestClient
