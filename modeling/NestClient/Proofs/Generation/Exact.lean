import NestClient.Proofs.Generation.Ready
import NestClient.Proofs.Generation.Synchronized

/-! What emptying a directory and writing files below it leaves, entry by entry.

* `wanted`: what stands below a directory that holds files and nothing else.
* `Replaced`: a disk on which a directory has been replaced by such a one, and all else is as it was but
  for the directories that lead there.
* `Replaced.written`: one more file keeps that; `synchronize_exact`: so it holds of all of them.
* `synchronize_grows`: where the path leads nowhere at first, nothing is taken away. -/

namespace NestClient

open Disk DiskChange NestClient.Action

/-- The names of a file below the directory that it is written to. -/
def GeneratedFile.names (f : GeneratedFile) : List Text := (Path.ofText f.path).names

/-- What stands at some names below a directory that holds the files and nothing else: the last file of
those with these names, or a directory on the way to a file. -/
def wanted (files : List GeneratedFile) (names : List Text) : Option Entry :=
  match (files.filter fun f => f.names = names).getLast? with
  | some f => some (.file (Utf8.encode f.contents))
  | none => if files.any fun f => names.isPrefixOf f.names then some .directory else none

/-- No path of a file is a proper prefix of the path of another one. -/
def Compatible (files : List GeneratedFile) : Prop :=
  ∀ f ∈ files, ∀ g ∈ files, f.names <+: g.names → f.names = g.names

/-- A disk on which the directory of a path holds the files and nothing else. All that is neither on the
way to it nor below it is as it was, and on the way to it directories have come into being at most. -/
structure Replaced (d : Disk) (output : Path) (l : Location) (files : List GeneratedFile) (e : Disk) :
    Prop where
  tree : e.IsTree
  enters : e.Enters output l
  lead : ∀ v, v <+: l → d.Passable v ∧ e.get? v = some .directory
  below : ∀ names, names ≠ [] → e.get? (l ++ names) = wanted files names
  frame : ∀ v, ¬v <+: l → ¬l <+: v → e.get? v = d.get? v

variable {d e : Disk} {output : Path} {l : Location} {files done : List GeneratedFile}
  {f : GeneratedFile} {names : List Text}

/-! ## Wanted entries -/

theorem wanted_of_free (h : ∀ g ∈ files, g.names ≠ names) :
    wanted files names
      = if files.any fun g => names.isPrefixOf g.names then some .directory else none := by
  have hnone : (files.filter fun g => g.names = names) = [] := by
    rw [List.filter_eq_nil_iff]
    intro g hg
    rw [decide_eq_true_eq]
    exact h g hg
  rw [wanted, hnone]
  rfl

theorem wanted_concat_self (files : List GeneratedFile) (f : GeneratedFile) :
    wanted (files ++ [f]) f.names = some (.file (Utf8.encode f.contents)) := by
  have hself : ([f].filter fun g => g.names = f.names) = [f] :=
    List.filter_cons_of_pos (decide_eq_true rfl)
  rw [wanted, List.filter_append, hself, List.getLast?_concat]

/-- A file is wanted nowhere but at its names and on the way there. -/
theorem wanted_concat_elsewhere (h : ¬names <+: f.names) :
    wanted (files ++ [f]) names = wanted files names := by
  have hne : f.names ≠ names := by
    intro heq
    rw [heq] at h
    exact h List.prefix_rfl
  have hfilter : ([f].filter fun g => g.names = names) = [] :=
    List.filter_cons_of_neg (by rw [decide_eq_true_eq]; exact hne)
  have hany : names.isPrefixOf f.names = false := by
    rw [Bool.eq_false_iff, Ne, List.isPrefixOf_iff_prefix]
    exact h
  rw [wanted, wanted, List.filter_append, hfilter, List.append_nil, List.any_append, List.any_cons,
    hany, List.any_nil, Bool.or_false, Bool.or_false]

theorem wanted_concat_of_lead (hne : names ≠ f.names) (hpre : names <+: f.names)
    (hfree : ∀ g ∈ files, g.names ≠ names) : wanted (files ++ [f]) names = some .directory := by
  have hall : ∀ g ∈ files ++ [f], g.names ≠ names := by
    intro g hg
    rcases List.mem_append.1 hg with hg | hg
    · exact hfree g hg
    · rw [List.mem_singleton.1 hg]
      exact hne.symm
  rw [wanted_of_free hall, if_pos]
  rw [List.any_append, List.any_cons, List.isPrefixOf_iff_prefix.2 hpre]
  simp

theorem wanted_ne_link (files : List GeneratedFile) (names : List Text) (t : Text) :
    wanted files names ≠ some (.link t) := by
  unfold wanted
  split
  · simp
  · split <;> simp

theorem exists_of_wanted_directory (h : wanted files names = some .directory) :
    (∀ g ∈ files, g.names ≠ names) ∧ ∃ g ∈ files, names <+: g.names := by
  unfold wanted at h
  split at h
  · cases h
  next hnone =>
    split at h
    next hany =>
      rw [List.getLast?_eq_none_iff, List.filter_eq_nil_iff] at hnone
      obtain ⟨g, hg, hpre⟩ := List.any_eq_true.1 hany
      refine ⟨fun g hg heq => hnone g hg (decide_eq_true heq), g, hg, ?_⟩
      exact List.isPrefixOf_iff_prefix.1 hpre
    next => cases h

theorem Compatible.free (h : Compatible (files ++ [f])) (hpre : names <+: f.names)
    (hne : names ≠ f.names) : ∀ g ∈ files, g.names ≠ names := by
  rintro g hg rfl
  exact hne (h g (List.mem_append_left _ hg) f (List.mem_append_right _ List.mem_cons_self) hpre)

theorem Compatible.wanted_ne_directory (h : Compatible (files ++ [f])) :
    wanted files f.names ≠ some .directory := by
  intro hdir
  obtain ⟨hnot, g, hg, hpre⟩ := exists_of_wanted_directory hdir
  have hsame := h f (List.mem_append_right _ List.mem_cons_self) g (List.mem_append_left _ hg) hpre
  exact hnot g hg hsame.symm

/-! ## One more file -/

theorem Replaced.written (h : Replaced d output l done e) (hf : f.Placed)
    (hcompatible : Compatible (done ++ [f])) :
    ∃ e', Does (writeText (f.place output) f.contents) e () e' ∧
      Replaced d output l (done ++ [f]) e' := by
  obtain ⟨names, hne, hnames, hpath⟩ := hf
  obtain rfl : f.names = names := by rw [GeneratedFile.names, hpath]
  have hplace : f.place output = ⟨output.anchor, output.names ++ f.names⟩ := by
    rw [GeneratedFile.place, hpath, Path.append_here]
  have hentry : e.get? (l ++ f.names) = wanted done f.names := h.below f.names hne
  have hpass : ∀ lead, lead ≠ [] → lead <+: f.names → lead ≠ f.names → e.Passable (l ++ lead) := by
    intro lead hlead hpre hnot
    rw [Passable, h.below lead hlead, wanted_of_free (hcompatible.free hpre hnot)]
    split
    · exact .inr rfl
    · exact .inl rfl
  obtain ⟨e', htree, henters, hdoes, hfile, hkept⟩ := @writeText_enters e output f.contents l f.names
    h.tree h.enters hne hnames hpass (by rw [hentry]; exact hcompatible.wanted_ne_directory)
    (fun t => by rw [hentry]; exact wanted_ne_link done f.names t)
  refine ⟨e', hplace ▸ hdoes, htree, henters, fun v hv => ⟨(h.lead v hv).1, ?_⟩, ?_, fun v hv hv' => ?_⟩
  · exact htree.directory_of_prefix (htree.get?_of_find? henters.find) hv
  · intro lead hlead
    by_cases hpre : lead <+: f.names
    · by_cases heq : lead = f.names
      · rw [heq, hfile, wanted_concat_self]
      · -- in a tree what leads to the file is a directory
        rw [wanted_concat_of_lead heq hpre (hcompatible.free hpre heq)]
        obtain ⟨more, hmore⟩ := hpre
        rw [← hmore, ← List.append_assoc] at hfile
        refine htree.directory_of_append ?_ hfile
        rintro rfl
        rw [List.append_nil] at hmore
        exact heq hmore
    · rw [wanted_concat_elsewhere hpre, ← h.below lead hlead]
      refine hkept _ fun lead' _ hpre' heq => hpre ?_
      rw [List.append_cancel_left heq]
      exact hpre'
  · rw [← h.frame v hv hv']
    refine hkept v fun lead _ _ heq => hv' ?_
    rw [heq]
    exact List.prefix_append l lead

/-! ## All of the files -/

/-- Emptying a directory and writing files below it leaves the directory with the files and nothing
else, whatever was there. -/
theorem synchronize_exact (h : d.IsTree) (hsite : d.Site output l) (hfiles : ∀ f ∈ files, f.Placed)
    (hcompatible : Compatible files) :
    ∃ e, Does (synchronize output files) d (files.map (GeneratedFile.place output)) e ∧
      Replaced d output l files e := by
  obtain ⟨n, m, hempty, hleft, hm⟩ := emptyDirectory_site h hsite
  have hstart : [] ⊆ files ∧ Replaced d output l [] m := by
    refine ⟨List.nil_subset files, hleft.tree, hm, fun v hv => ?_, fun names hne => ?_, hleft.frame⟩
    · exact ⟨hsite.passable h hv, hleft.lead v hv⟩
    · exact hleft.below _ (List.prefix_append l names) (by simpa using hne)
  have hstep : ∀ done, ∀ f ∈ files, ∀ d', (done ⊆ files ∧ Replaced d output l done d') →
      ∃ e, Does (do
          writeText (f.place output) f.contents
          report [.fileWritten (f.place output).text]
          return f.place output) d' (f.place output) e ∧
        (done ++ [f] ⊆ files ∧ Replaced d output l (done ++ [f]) e) := by
    rintro done f hf d' ⟨hsub, hdone⟩
    have hsub' : done ++ [f] ⊆ files := List.append_subset.2 ⟨hsub, by simpa using hf⟩
    obtain ⟨e, hwrite, hnext⟩ := hdone.written (hfiles f hf)
      fun g hg g' hg' => hcompatible g (hsub' hg) g' (hsub' hg')
    exact ⟨e, hwrite.bind ((does_report _ e).bind (does_pure _ e)), hsub', hnext⟩
  obtain ⟨e, hdoes, -, hreplaced⟩ :=
    does_mapM (I := fun done e => done ⊆ files ∧ Replaced d output l done e) hstep hstart
  exact ⟨e, (does_change hempty).bind ((does_report _ m).bind hdoes), hreplaced⟩

/-- An output directory behind a link, with a link and a directory in it. -/
def aliasedEntries : List (Location × Entry) := entriesAt [
  ("w", .directory), ("w/api", .link "real".toList), ("w/real", .directory),
  ("w/real/out", .directory), ("w/real/out/up", .link "..".toList), ("w/real/out/old", .directory),
  ("w/real/out/old/a.ts", .file [0])]

/-- Two files, one of them given twice. -/
def repeatedFiles : List GeneratedFile := [
  { path := "a/b.ts".toList, contents := "1".toList },
  { path := "c.ts".toList, contents := "2".toList },
  { path := "a/b.ts".toList, contents := "3".toList }]

theorem synchronize_exact_aliased :
    ∃ e, Does (synchronize (.ofText "/w/api/out".toList) repeatedFiles) ⟨aliasedEntries⟩
        (repeatedFiles.map (GeneratedFile.place (.ofText "/w/api/out".toList))) e ∧
      Replaced ⟨aliasedEntries⟩ (.ofText "/w/api/out".toList) (Path.namesOf "w/real/out".toList)
        repeatedFiles e ∧
      e.get? (Path.namesOf "w/real/out/a/b.ts".toList) = some (.file (Utf8.encode "3".toList)) ∧
      e.get? (Path.namesOf "w/real/out/up".toList) = none ∧
      e.get? (Path.namesOf "w/real/out/old".toList) = none := by
  have htree : (⟨aliasedEntries⟩ : Disk).IsTree := by decide +kernel
  have hlink : (⟨aliasedEntries⟩ : Disk).get? ["w".toList, "api".toList] = some (.link "real".toList) := by
    decide +kernel
  have hway : Way ⟨aliasedEntries⟩ [] (Path.namesOf "w/api".toList)
      [["w".toList], Path.namesOf "w/api".toList, Path.namesOf "w/real".toList] 1
      (Path.namesOf "w/real".toList) .directory :=
    .into (by decide) (by decide +kernel)
      (.through (by decide) hlink (.into (by decide) (by decide +kernel) (.here _)))
  have henters : (⟨aliasedEntries⟩ : Disk).Enters ⟨.root, Path.namesOf "w/api".toList ++ ["out".toList]⟩
      (Path.namesOf "w/real".toList ++ ["out".toList]) := by
    refine htree.enters_append (by decide +kernel) ?_ (by decide +kernel)
    rintro v ⟨seen, k, m, e, hway', hv⟩
    obtain ⟨rfl, -⟩ := hway'.functional hway
    revert v
    decide +kernel
  have hfiles : ∀ f ∈ repeatedFiles, f.Placed := by
    intro f hf
    refine ⟨f.names, ?_, ?_, ?_⟩ <;> revert f <;> decide +kernel
  have hcompatible : Compatible repeatedFiles := by
    unfold Compatible
    decide +kernel
  obtain ⟨e, hdoes, hreplaced⟩ := synchronize_exact htree (.there henters) hfiles hcompatible
  have hfile := hreplaced.below ["a".toList, "b.ts".toList] (by simp)
  have hup := hreplaced.below ["up".toList] (by simp)
  have hold := hreplaced.below ["old".toList] (by simp)
  exact ⟨e, hdoes, hreplaced, hfile.trans (by decide +kernel), hup.trans (by decide +kernel),
    hold.trans (by decide +kernel)⟩

/-! ## A path that leads nowhere -/

/-- Where nothing is found at the path of the directory, nothing is emptied: all that stood anywhere still
does, save that files may have been written over. -/
theorem synchronize_grows (hnone : d.find? output = none) {written : List Path}
    (h : Gives (synchronize output files) d written e) : Grows (fun _ => True) d e := by
  obtain ⟨n, m, hempty, hrest⟩ := h.of_bind
  obtain ⟨_, m', hreport, hfill⟩ := hrest.of_bind
  obtain rfl := hreport.of_report
  have hmake := hempty.of_change
  rw [emptyDirectory_missing hnone] at hmake
  obtain ⟨_, m₁, hmade, hlast⟩ := Steps.exists_of_bind_ok hmake
  obtain rfl : m₁ = m' := (Prod.mk.inj hlast).2
  have hstart := @grows_ensureDirectories (fun _ => True) output d
  rw [hmade] at hstart
  refine (@Gives.of_mapM _ _ m₁ e _ (GeneratedFile.place output) (fun _ => Grows (fun _ => True) d) []
    files ?_ written hstart hfill).2
  intro done f hf m v e hdone hstep
  obtain ⟨_, m', hwrite, hrest⟩ := hstep.of_bind
  obtain ⟨_, m'', hreport, hlast⟩ := hrest.of_bind
  obtain rfl := hreport.of_report
  obtain ⟨rfl, rfl⟩ := hlast.of_pure
  obtain ⟨l, -, hgrows⟩ := grows_writeText hwrite
  exact ⟨rfl, hdone.trans (hgrows.mono fun _ _ => trivial)⟩

/-- The way back up from a directory that is missing leads to one that is there once that has been made. -/
example : ((synchronize (.ofText "/gone/../out".toList) [{ path := "f.ts".toList, contents := [] }]).start
    ⟨entriesAt [("out", .directory), ("out/old.ts", .file [0])]⟩).2.disk.get?
      (Path.namesOf "out/old.ts".toList) = some (.file [0]) := by
  decide +kernel

end NestClient
