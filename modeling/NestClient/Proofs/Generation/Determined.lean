import NestClient.Proofs.Generation.Ready
import NestClient.Proofs.Generation.Rendered

/-! What a generation leaves behind depends on its inputs only.

* `Volatile`: the locations whose state before a run is of no account: all below the output directory,
  the manifest, and what is missing of the directories on the way to either.
* `alongside_generate`: two runs on states that differ in volatile locations only, none of which an
  input passes, end alike.
* `generate_determined_by_inputs`: so they succeed on both states or on none, with the same result and
  the same disk, and a second run changes nothing. -/

namespace NestClient

open Disk DiskChange NestClient.Action

/-! ## States -/

/-- What stands at the location before a run is of no account: it is below the output directory, it is
the manifest, or it is one of the directories on the way there and missing in one of two states. -/
def Volatile (root : Path) (config : Config) (d d' : Disk) (v : Location) : Prop :=
  ((config.outputPath root).names <+: v ∧ v ≠ (config.outputPath root).names) ∨
    v = target (config.manifestFile root) ∨
    v ∈ madePlaces root config ∧ ¬(d.get? v = some .directory ∧ d'.get? v = some .directory)

instance (root : Path) (config : Config) (d d' : Disk) (v : Location) :
    Decidable (Volatile root config d d' v) := inferInstanceAs (Decidable (_ ∨ _ ∨ _ ∧ _))

/-- Following an input to its file looks at none of these locations. -/
def InputsApart (root : Path) (config : Config) (d : Disk) (apart : Location → Prop) : Prop :=
  ∀ p, Project.IsInput d root config p → d.isFile p = true → ∀ v, d.Passes p v → ¬apart v

/-- Two states of a workspace that agree on everything but volatile locations, which no input passes. -/
structure Comparable (root : Path) (config : Config) (d d' : Disk) : Prop where
  ready : Ready root config d
  ready' : Ready root config d'
  same : ∀ v, ¬Volatile root config d d' v → d.get? v = d'.get? v
  apart : InputsApart root config d (Volatile root config d d')
  apart' : InputsApart root config d' (Volatile root config d d')

variable {root : Path} {config : Config} {d d' e e' : Disk}

/-! ## The manifest -/

/-- What a run leaves: the directories on the way to its files, the manifest, and all else but the
output as it was. -/
structure Finished (root : Path) (config : Config) (d e : Disk) : Prop where
  tree : e.IsTree
  made : ∀ v ∈ madePlaces root config, e.get? v = some .directory
  manifest : ∃ bytes, e.get? (target (config.manifestFile root)) = some (.file bytes)
  frame : ∀ v, ¬Volatile root config d d v → d.get? v = e.get? v

/-- The manifest on a disk whose output directory has been filled. -/
theorem finished_of_written (hsettled : Settled root config)
    (hfilled : Filled d (config.outputPath root).names e) {contents : Text} {e₁ : Disk}
    (hwritable : Writable e (config.manifestFile root))
    (hw : Written e (config.manifestFile root) contents e₁) : Finished root config d e₁ := by
  have htarget : ¬target (config.manifestFile root) <+: (config.outputPath root).names :=
    fun hpre => hwritable.room (hfilled.lead _ hpre)
  have hlead : ∀ v, v <+: (config.outputPath root).names → e₁.get? v = some .directory := by
    intro v hv
    have hne : v ≠ target (config.manifestFile root) := by
      rintro rfl
      exact htarget hv
    rw [hw.get?, if_neg hne, hfilled.lead v hv, ite_self]
  have hmade : ∀ v ∈ leading (config.manifestFile root), e₁.get? v = some .directory := by
    intro v hv
    have hne : v ≠ target (config.manifestFile root) := by
      rintro rfl
      exact hwritable.apart hv
    rw [hw.get?, if_neg hne, if_pos hv]
  refine ⟨hw.tree, ?_, ⟨_, (hw.get? _).trans (if_pos rfl)⟩, ?_⟩
  · intro v hv
    rcases List.mem_append.1 hv with hv | hv
    · exact hlead v (hsettled.mem_places_output.1 hv).2
    · exact hmade v hv
  · intro v hv
    have hdir : v ∈ madePlaces root config → d.get? v = some .directory := by
      intro hmem
      refine Classical.byContradiction fun hnot => hv (.inr (.inr ⟨hmem, ?_⟩))
      exact fun hboth => hnot hboth.1
    have hne : v ≠ target (config.manifestFile root) := fun heq => hv (.inr (.inl heq))
    by_cases hmem : v ∈ leading (config.manifestFile root)
    · rw [hmade v hmem, hdir (List.mem_append_right _ hmem)]
    · by_cases hpre : v <+: (config.outputPath root).names
      · rw [hlead v hpre]
        by_cases hnil : v = []
        · rw [hnil]
          rfl
        · exact hdir (List.mem_append_left _ (hsettled.mem_places_output.2 ⟨hnil, hpre⟩))
      · have hbelow : ¬(config.outputPath root).names <+: v := by
          intro hbelow
          refine hv (.inl ⟨hbelow, ?_⟩)
          rintro rfl
          exact hpre List.prefix_rfl
        rw [hw.get?, if_neg hne, if_neg hmem, hfilled.frame v hpre hbelow]

theorem alongside_manifest (hsettled : Settled root config) (hready : Ready root config d)
    (hready' : Ready root config d')
    (hsame : ∀ v, ¬Volatile root config d d' v → d.get? v = d'.get? v)
    (h : FilledAlike d d' (config.outputPath root).names e e') (contents : Text) :
    Alongside e e' (writeText (config.manifestFile root) contents)
      (writeText (config.manifestFile root) contents) fun _ a a' =>
        Finished root config d a ∧ Finished root config d' a' ∧ ∀ v, a.get? v = a'.get? v := by
  refine (alongside_writeManifest hsettled hready hready' h contents).mono ?_
  rintro - a a' ⟨hfree, hw, hw'⟩
  refine ⟨finished_of_written hsettled h.left hfree hw,
    finished_of_written hsettled h.right (writable_manifest h hready' hfree) hw', ?_⟩
  intro v
  rw [hw.get?, hw'.get?]
  split
  · rfl
  · next hne =>
    split
    · rfl
    · next hout =>
      by_cases hnear : Near (config.outputPath root).names v
      · exact h.near hnear
      · rw [h.left.frame v (fun hpre => hnear (.inl hpre)) fun hpre => hnear (.inr hpre),
          h.right.frame v (fun hpre => hnear (.inl hpre)) fun hpre => hnear (.inr hpre)]
        refine hsame v ?_
        rintro (⟨hpre, -⟩ | heq | ⟨hmem, -⟩)
        · exact hnear (.inr hpre)
        · exact hne heq
        · rcases List.mem_append.1 hmem with hmem | hmem
          · exact hnear (.inl (hsettled.mem_places_output.1 hmem).2)
          · exact hout hmem

/-! ## The whole run -/

/-- On comparable states a generation ends alike. -/
theorem alongside_generate (hsettled : Settled root config) (h : Comparable root config d d') :
    Alongside d d' (generate root config) (generate root config) fun _ e e' =>
      Finished root config d e ∧ Finished root config d' e' ∧ ∀ v, e.get? v = e'.get? v := by
  have hin : Project.InputsAgree d d' root config :=
    fun p hp hfile v hv => h.same v (h.apart p hp hfile v hv)
  have hin' : Project.InputsAgree d' d root config :=
    fun p hp hfile v hv => (h.same v (h.apart' p hp hfile v hv)).symm
  refine (reads_analyze h.ready.tree h.ready'.tree hin hin').bind fun analysis hplans => ?_
  refine (reads_mapM analysis.plans fun plan _ => reads_render plan).bind fun rendered hrendered => ?_
  refine (alongside_synchronize h.ready.tree h.ready'.tree
    (anchor_append hsettled.anchor (.ofText config.outputDir))
    (fun n hn => hsettled.isEntryName_output hn)
    (fun v hv => h.ready.passable v (List.mem_append_left _ hv))
    (fun v hv => h.ready'.passable v (List.mem_append_left _ hv))
    fun f hf => placed_of_rendered hrendered hplans hf).bind fun written e e' hfilled => ?_
  refine (alongside_manifest hsettled h.ready h.ready' h.same hfilled _).bind fun _ a a' hdone => ?_
  refine (alongside_report (R := fun _ e e' => Finished root config d e ∧
    Finished root config d' e' ∧ ∀ v, e.get? v = e'.get? v) hdone).bind fun _ a a' hdone => ?_
  refine (reads_mapM written fun p _ => reads_relative p root).bind fun _ _ => ?_
  refine (reads_relative (config.outputPath root) root).bind fun _ _ => ?_
  refine (reads_relative (config.manifestFile root) root).bind fun _ _ => ?_
  exact alongside_pure hdone

theorem InputsApart.mono {apart apart' : Location → Prop} (h : InputsApart root config d apart)
    (hsub : ∀ v, apart' v → apart v) : InputsApart root config d apart' :=
  fun p hp hfile v hv hapart => h p hp hfile v hv (hsub v hapart)

theorem Finished.comparable (h : Finished root config d e) (hready : Ready root config d)
    (hapart : InputsApart root config d (Volatile root config d d))
    (hapart' : InputsApart root config e (Volatile root config d d)) :
    Comparable root config d e := by
  have hiff : ∀ v, Volatile root config d e v ↔ Volatile root config d d v := by
    intro v
    refine or_congr_right (or_congr_right (and_congr_right fun hmem => not_congr ?_))
    simp [h.made v hmem]
  refine ⟨hready, ⟨h.tree, fun v hv => .inr (h.made v hv), .inr h.manifest⟩,
    fun v hv => h.frame v ?_, ?_, ?_⟩
  · exact fun hvolatile => hv ((hiff v).2 hvolatile)
  · exact hapart.mono fun v hv => (hiff v).1 hv
  · exact hapart'.mono fun v hv => (hiff v).1 hv

/-- The output depends on the inputs only: on comparable states a generation succeeds on both or on
none, and then it gives the same and leaves the same. In particular a second run after a successful one
changes nothing. -/
theorem generate_determined_by_inputs (hsettled : Settled root config)
    (h : Comparable root config d d') :
    let run := (generate root config).start
    (∀ g, (run d).1 = .ok g ↔ (run d').1 = .ok g) ∧
      ∀ g, (run d).1 = .ok g →
        (∀ v, (run d).2.disk.get? v = (run d').2.disk.get? v) ∧
        (InputsApart root config (run d).2.disk (Volatile root config d d) →
          (run (run d).2.disk).1 = .ok g ∧
            ∀ v, (run (run d).2.disk).2.disk.get? v = (run d).2.disk.get? v) := by
  intro run
  have hpair : ∀ {a a' : Disk}, Comparable root config a a' →
      (∀ g, (run a).1 = .ok g ↔ (run a').1 = .ok g) ∧
        ∀ g, (run a).1 = .ok g → Finished root config a (run a).2.disk ∧
          ∀ v, (run a).2.disk.get? v = (run a').2.disk.get? v := by
    intro a a' hcomparable
    rcases alongside_generate hsettled hcomparable ⟨a, []⟩ ⟨a', []⟩ rfl rfl with
      ⟨g, t, t', hrun, hrun', hfinished, -, hsame⟩ | ⟨f, f', t, t', hrun, hrun'⟩
    · have ha : run a = (.ok g, t) := hrun
      have ha' : run a' = (.ok g, t') := hrun'
      rw [ha, ha']
      exact ⟨fun _ => Iff.rfl, fun _ _ => ⟨hfinished, hsame⟩⟩
    · have ha : run a = (.error f, t) := hrun
      have ha' : run a' = (.error f', t') := hrun'
      rw [ha, ha']
      refine ⟨fun g => ⟨?_, ?_⟩, ?_⟩
      · rintro ⟨⟩
      · rintro ⟨⟩
      · rintro g ⟨⟩
  refine ⟨(hpair h).1, fun g hg => ?_⟩
  obtain ⟨hfinished, hsame⟩ := (hpair h).2 g hg
  refine ⟨hsame, fun hapart' => ?_⟩
  have hapart : InputsApart root config d (Volatile root config d d) := h.apart.mono fun v hv =>
    hv.imp_right (Or.imp_right fun ⟨hmem, hnot⟩ => ⟨hmem, fun hboth => hnot ⟨hboth.1, hboth.1⟩⟩)
  have hagain := hpair (hfinished.comparable h.ready hapart hapart')
  exact ⟨(hagain.1 g).1 hg, fun v => ((hagain.2 g hg).2 v).symm⟩

/-! ## Two states of a small workspace -/

/-- Inputs that no link leads to pass what leads to them, and nothing else. -/
theorem inputsApart_of_locations {apart : Location → Prop} (h : d.IsTree)
    (hinputs : ∀ p ∈ Project.inputPaths d root config, d.isFile p = true →
      d.get? p.names = some (.file ((d.bytesAt? p).getD [])) ∧
        ∀ n < p.names.length + 1, ¬apart (p.names.take n)) :
    InputsApart root config d apart := by
  intro p hp hfile v hv
  obtain ⟨hget, hapart⟩ := hinputs p hp.mem_inputPaths hfile
  have hpre := passes_location h hget (by simp) hv
  rw [List.prefix_iff_eq_take.1 hpre]
  exact hapart _ (Nat.lt_succ_of_le hpre.length_le)

theorem get?_append_of_apart {old extra : List (Location × Entry)} {apart : Location → Prop}
    (hextra : ∀ x ∈ extra, apart x.1) {v : Location} (hv : ¬apart v) :
    (⟨old⟩ : Disk).get? v = (⟨old ++ extra⟩ : Disk).get? v := by
  by_cases hnil : v = []
  · rw [hnil]
    rfl
  · rw [get?_eq_lookup hnil, get?_eq_lookup hnil, List.lookup_append]
    cases hlookup : extra.lookup v with
    | none => simp
    | some x => exact absurd (hextra _ (mem_of_lookup_eq hlookup)) hv

theorem exists_of_toOption_eq {ε α : Type} {x y : Except ε α} (hx : x.isOk = true)
    (h : x.toOption = y.toOption) : ∃ a, x = .ok a ∧ y = .ok a := by
  obtain ⟨a, rfl⟩ := exists_of_isOk hx
  cases y with
  | ok b => exact ⟨a, rfl, congrArg Except.ok (Option.some.inj h).symm⟩
  | error e => cases h

theorem exists_of_map_ne {ε α β : Type} {x y : Except ε α} (f : α → β) (hx : x.isOk = true)
    (hy : y.isOk = true) (h : x.toOption.map f ≠ y.toOption.map f) :
    ∃ a b, x = .ok a ∧ y = .ok b ∧ a ≠ b := by
  obtain ⟨a, rfl⟩ := exists_of_isOk hx
  obtain ⟨b, rfl⟩ := exists_of_isOk hy
  refine ⟨a, b, rfl, rfl, ?_⟩
  rintro rfl
  exact h rfl

/-- A workspace with a file that is no text in place of a controller. -/
def freshEntries : List (Location × Entry) := entriesAt [
  ("w", .directory), ("w/t.json", .file []), ("w/src", .directory), ("w/src/team.ts", .file [255])]

/-- What earlier runs and others have left. -/
def staleEntries : List (Location × Entry) := entriesAt [
  ("w/out", .directory), ("w/out/old", .directory), ("w/out/old/up", .link "..".toList),
  ("w/index.ts", .file [0])]

theorem generate_determined_by_inputs_small :
    Settled smallRoot smallConfig ∧ Comparable smallRoot smallConfig ⟨freshEntries⟩
        ⟨freshEntries ++ staleEntries⟩ ∧
      ∃ g, ((generate smallRoot smallConfig).start ⟨freshEntries⟩).1 = .ok g ∧
        ((generate smallRoot smallConfig).start ⟨freshEntries ++ staleEntries⟩).1 = .ok g ∧
        (∀ v, ((generate smallRoot smallConfig).start ⟨freshEntries⟩).2.disk.get? v
          = ((generate smallRoot smallConfig).start ⟨freshEntries ++ staleEntries⟩).2.disk.get? v) ∧
        ((generate smallRoot smallConfig).start
          ((generate smallRoot smallConfig).start ⟨freshEntries⟩).2.disk).1 = .ok g := by
  have hsettled : Settled smallRoot smallConfig := ⟨rfl, by decide, by decide +kernel⟩
  have htree : (⟨freshEntries⟩ : Disk).IsTree := by decide +kernel
  have htree' : (⟨freshEntries ++ staleEntries⟩ : Disk).IsTree := by decide +kernel
  have hstale : ∀ x ∈ staleEntries, Volatile smallRoot smallConfig ⟨freshEntries⟩
      ⟨freshEntries ++ staleEntries⟩ x.1 := by
    decide +kernel
  have hcomparable : Comparable smallRoot smallConfig ⟨freshEntries⟩
      ⟨freshEntries ++ staleEntries⟩ :=
    ⟨⟨htree, by decide +kernel, .inl (by decide +kernel)⟩,
      ⟨htree', by decide +kernel, .inr ⟨[0], by decide +kernel⟩⟩,
      fun v hv => get?_append_of_apart hstale hv,
      inputsApart_of_locations htree (by decide +kernel),
      inputsApart_of_locations htree' (by decide +kernel)⟩
  obtain ⟨g, hg⟩ := exists_of_isOk
    (x := ((generate smallRoot smallConfig).start ⟨freshEntries⟩).1) (by decide +kernel)
  have ⟨hsuccess, hleft⟩ := generate_determined_by_inputs hsettled hcomparable
  have hagain : InputsApart smallRoot smallConfig
      ((generate smallRoot smallConfig).start ⟨freshEntries⟩).2.disk
      (Volatile smallRoot smallConfig ⟨freshEntries⟩ ⟨freshEntries⟩) :=
    inputsApart_of_locations (by decide +kernel) (by decide +kernel)
  exact ⟨hsettled, hcomparable, g, hg, (hsuccess g).1 hg, (hleft g hg).1, ((hleft g hg).2 hagain).1⟩

/-! ## What agreement outside of the output does not give -/

/-- The location is below the output directory, or it is the manifest. -/
def IsOutput (root : Path) (config : Config) (v : Location) : Prop :=
  (endPlace [] (config.outputPath root).names <+: v ∧
      v ≠ endPlace [] (config.outputPath root).names) ∨
    v = target (config.manifestFile root)

instance (root : Path) (config : Config) (v : Location) : Decidable (IsOutput root config v) :=
  inferInstanceAs (Decidable (_ ∨ _))

/-- Two states that agree on everything but the output, where no input ends. -/
structure AgreeOutside (root : Path) (config : Config) (d d' : Disk) : Prop where
  ready : Ready root config d
  ready' : Ready root config d'
  same : ∀ v, ¬IsOutput root config v → d.get? v = d'.get? v
  inputs : ∀ p, Project.IsInput d root config p → ∀ m e, d.find? p = some (m, e) →
    ¬IsOutput root config m
  inputs' : ∀ p, Project.IsInput d' root config p → ∀ m e, d'.find? p = some (m, e) →
    ¬IsOutput root config m

theorem not_isOutput_of_inputPaths
    (h : ∀ p ∈ Project.inputPaths d root config, ∀ x ∈ d.find? p, ¬IsOutput root config x.1) :
    ∀ p, Project.IsInput d root config p → ∀ m e, d.find? p = some (m, e) →
      ¬IsOutput root config m :=
  fun p hp m e hfind => h p hp.mem_inputPaths (m, e) hfind

/-- A link to a file's directory whose way leads through a directory of the output. -/
def linkedEntries : List (Location × Entry) := entriesAt [
  ("w", .directory), ("w/t.json", .file []), ("w/out", .directory), ("w/real", .directory),
  ("w/real/team.ts", .file [255]), ("w/src", .link "out/old/../../real".toList)]

/-- A workspace without inputs but the configuration. -/
def bareEntries : List (Location × Entry) := entriesAt [
  ("w", .directory), ("w/t.json", .file []), ("w/out", .directory)]

/-- A directory of the output. -/
def oldEntries : List (Location × Entry) := entriesAt [("w/out/old", .directory)]

/-- An output directory behind a `..` that leads out of a directory that is missing. -/
def dotsConfig : Config := { smallConfig with outputDir := "gone/../out".toList }

/-- Agreement outside of the output is not enough: an input can lead through the output directory, and
an output directory behind a missing one is not found and keeps what is in it. -/
theorem generate_not_determined_outside :
    (AgreeOutside smallRoot smallConfig ⟨linkedEntries⟩ ⟨linkedEntries ++ oldEntries⟩ ∧
      ∃ g g', ((generate smallRoot smallConfig).start ⟨linkedEntries⟩).1 = .ok g ∧
        ((generate smallRoot smallConfig).start ⟨linkedEntries ++ oldEntries⟩).1 = .ok g' ∧ g ≠ g') ∧
    AgreeOutside smallRoot dotsConfig ⟨bareEntries⟩ ⟨bareEntries ++ oldEntries⟩ ∧
      ∃ g, ((generate smallRoot dotsConfig).start ⟨bareEntries⟩).1 = .ok g ∧
        ((generate smallRoot dotsConfig).start ⟨bareEntries ++ oldEntries⟩).1 = .ok g ∧
        ∃ v, ((generate smallRoot dotsConfig).start ⟨bareEntries⟩).2.disk.get? v
          ≠ ((generate smallRoot dotsConfig).start ⟨bareEntries ++ oldEntries⟩).2.disk.get? v := by
  have hlinked : AgreeOutside smallRoot smallConfig ⟨linkedEntries⟩
      ⟨linkedEntries ++ oldEntries⟩ := by
    have hold : ∀ x ∈ oldEntries, IsOutput smallRoot smallConfig x.1 := by decide +kernel
    exact ⟨⟨by decide +kernel, by decide +kernel, .inl (by decide +kernel)⟩,
      ⟨by decide +kernel, by decide +kernel, .inl (by decide +kernel)⟩,
      fun v hv => get?_append_of_apart hold hv,
      not_isOutput_of_inputPaths (by decide +kernel), not_isOutput_of_inputPaths (by decide +kernel)⟩
  have hdots : AgreeOutside smallRoot dotsConfig ⟨bareEntries⟩ ⟨bareEntries ++ oldEntries⟩ := by
    have hold : ∀ x ∈ oldEntries, IsOutput smallRoot dotsConfig x.1 := by decide +kernel
    exact ⟨⟨by decide +kernel, by decide +kernel, .inl (by decide +kernel)⟩,
      ⟨by decide +kernel, by decide +kernel, .inl (by decide +kernel)⟩,
      fun v hv => get?_append_of_apart hold hv,
      not_isOutput_of_inputPaths (by decide +kernel), not_isOutput_of_inputPaths (by decide +kernel)⟩
  refine ⟨⟨hlinked, ?_⟩, hdots, ?_⟩
  · exact exists_of_map_ne Generation.filesScanned (by decide +kernel) (by decide +kernel)
      (by decide +kernel)
  · have hkept : ((generate smallRoot dotsConfig).start ⟨bareEntries⟩).2.disk.get?
          (Path.namesOf "w/out/old".toList)
        ≠ ((generate smallRoot dotsConfig).start ⟨bareEntries ++ oldEntries⟩).2.disk.get?
          (Path.namesOf "w/out/old".toList) := by
      decide +kernel
    obtain ⟨g, hg, hg'⟩ := exists_of_toOption_eq
      (x := ((generate smallRoot dotsConfig).start ⟨bareEntries⟩).1)
      (y := ((generate smallRoot dotsConfig).start ⟨bareEntries ++ oldEntries⟩).1)
      (by decide +kernel) (by decide +kernel)
    exact ⟨g, hg, hg', _, hkept⟩

end NestClient
