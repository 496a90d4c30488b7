import NestClient.Proofs.Generation.Filled

/-! States in which a generation finds its way free.

* `Settled`, `Ready`: the output directory and the manifest are reached from the root without links, and
  what leads to them are directories as far as it is there.
* `alongside_writeManifest`: after the output directory has been filled, the manifest is written alike
  on two such states. -/

namespace NestClient

open Disk DiskChange NestClient.Action

/-- The places of the directories that a run makes if they are missing. -/
def madePlaces (root : Path) (config : Config) : List Location :=
  places [] (config.outputPath root).names ++ leading (config.manifestFile root)

/-- The path of the workspace goes from the root to an entry, and that of the output directory does not
lead up from there. -/
structure Settled (root : Path) (config : Config) : Prop where
  anchor : root.anchor = .root
  names : ∀ n ∈ root.names, IsEntryName n
  output : ∀ n ∈ (Path.ofText config.outputDir).names, n ≠ ['.', '.']

/-- The output directory and the manifest can be written: what leads to them are directories as far as
it is there, and so is the output directory, and the manifest is a file if it is there. -/
structure Ready (root : Path) (config : Config) (d : Disk) : Prop where
  tree : d.IsTree
  passable : ∀ v ∈ madePlaces root config, d.Passable v
  manifest : d.get? (target (config.manifestFile root)) = none ∨
    ∃ bytes, d.get? (target (config.manifestFile root)) = some (.file bytes)

variable {root : Path} {config : Config} {d d' e e' : Disk} {l : Location}

/-! ## Paths of a workspace -/

theorem isName_append (hnames : ∀ n ∈ root.names, IsEntryName n) (t : Text) :
    ∀ n ∈ (root.append (.ofText t)).names, Path.IsName n := by
  unfold Path.append
  split
  · intro n hn
    rcases List.mem_append.1 hn with hn | hn
    · exact (hnames n hn).toIsName
    · exact Path.isName_of_mem_namesOf hn
  · exact fun n hn => Path.isName_of_mem_namesOf hn

theorem anchor_append (hanchor : root.anchor = .root) (p : Path) :
    (root.append p).anchor ≠ .here := by
  unfold Path.append
  split
  · rw [hanchor]
    decide
  · assumption

namespace Settled

variable (h : Settled root config)

include h

theorem isEntryName_output {n : Text} (hn : n ∈ (config.outputPath root).names) : IsEntryName n := by
  refine ⟨isName_append h.names config.outputDir n hn, ?_⟩
  unfold Config.outputPath Path.append at hn
  split at hn
  · rcases List.mem_append.1 hn with hn | hn
    · exact (h.names n hn).ne_dots
    · exact h.output n hn
  · exact h.output n hn

theorem mem_places_output {v : Location} :
    v ∈ places [] (config.outputPath root).names ↔ v ≠ [] ∧ v <+: (config.outputPath root).names := by
  rw [mem_places_of_no_dots fun n hn => (h.isEntryName_output hn).ne_dots]
  constructor
  · rintro ⟨front, hne, hpre, rfl⟩
    exact ⟨hne, hpre⟩
  · rintro ⟨hne, hpre⟩
    exact ⟨v, hne, hpre, rfl⟩

end Settled

/-! ## The manifest -/

section

variable (hready : Ready root config d) (hfilled : Filled d (config.outputPath root).names e)

include hready hfilled

theorem passable_of_ready {v : Location} (hv : v ∈ leading (config.manifestFile root))
    (hfar : ¬Near (config.outputPath root).names v) : e.Passable v := by
  rw [Passable, hfilled.frame v (fun hpre => hfar (.inl hpre)) fun hpre => hfar (.inr hpre)]
  exact hready.passable v (List.mem_append_right _ hv)

theorem manifest_of_ready {x : Entry}
    (hfar : ¬Near (config.outputPath root).names (target (config.manifestFile root)))
    (hx : e.get? (target (config.manifestFile root)) = some x) : ∃ bytes, x = .file bytes := by
  rw [hfilled.frame _ (fun hpre => hfar (.inl hpre)) fun hpre => hfar (.inr hpre)] at hx
  rcases hready.manifest with hnone | ⟨bytes, hfile⟩
  · rw [hnone] at hx
    cases hx
  · exact ⟨bytes, Option.some.inj (hx.symm.trans hfile)⟩

theorem not_link_of_ready {v : Location}
    (hv : v ∈ leading (config.manifestFile root) ++ [target (config.manifestFile root)]) (t : Text) :
    e.get? v ≠ some (.link t) := by
  by_cases hnear : Near (config.outputPath root).names v
  · exact hfilled.not_link_of_near hnear t
  · rcases List.mem_append.1 hv with hv | hv
    · exact (passable_of_ready hready hfilled hv hnear).not_link t
    · rw [List.mem_singleton.1 hv] at hnear ⊢
      intro hlink
      obtain ⟨bytes, hfile⟩ := manifest_of_ready hready hfilled hnear hlink
      cases hfile

end

theorem FilledAlike.symm (h : FilledAlike d d' l e e') : FilledAlike d' d l e' e :=
  ⟨h.right, h.left, fun v hv => (h.below v hv).symm⟩

theorem writable_manifest (h : FilledAlike d d' (config.outputPath root).names e e')
    (hready' : Ready root config d') (hw : Writable e (config.manifestFile root)) :
    Writable e' (config.manifestFile root) where
  named := hw.named
  dots := hw.dots
  passable := fun v hv => by
    by_cases hnear : Near (config.outputPath root).names v
    · rw [Passable, ← h.near hnear]
      exact hw.passable v hv
    · exact passable_of_ready hready' h.right hv hnear
  apart := hw.apart
  room := by
    by_cases hnear : Near (config.outputPath root).names (target (config.manifestFile root))
    · rw [← h.near hnear]
      exact hw.room
    · intro hdir
      obtain ⟨bytes, hfile⟩ := manifest_of_ready hready' h.right hnear hdir
      cases hfile

/-- The manifest is written on both disks or on none. -/
theorem alongside_writeManifest (hsettled : Settled root config) (hready : Ready root config d)
    (hready' : Ready root config d')
    (h : FilledAlike d d' (config.outputPath root).names e e') (contents : Text) :
    Alongside e e' (writeText (config.manifestFile root) contents)
      (writeText (config.manifestFile root) contents) fun _ a a' =>
        Writable e (config.manifestFile root) ∧ Written e (config.manifestFile root) contents a ∧
          Written e' (config.manifestFile root) contents a' :=
  @alongside_writeText e e' (config.manifestFile root) contents h.left.tree h.right.tree
    (anchor_append hsettled.anchor (.ofText config.manifestPath))
    (isName_append hsettled.names config.manifestPath)
    (fun _ hv => not_link_of_ready hready h.left hv) (fun _ hv => not_link_of_ready hready' h.right hv)
    ⟨writable_manifest h hready', writable_manifest h.symm hready⟩

/-! ## A small workspace -/

theorem exists_of_isOk {ε α : Type} {x : Except ε α} (h : x.isOk = true) : ∃ a, x = .ok a := by
  cases x with
  | ok a => exact ⟨a, rfl⟩
  | error e => cases h

def entriesAt (written : List (String × Entry)) : List (Location × Entry) :=
  written.map fun (path, e) => (Path.namesOf path.toList, e)

def smallConfig : Config := {
  tsconfigPath := "t.json".toList
  controllerGlobs := ["src/*.ts".toList]
  outputDir := "out".toList
  manifestPath := "index.ts".toList
  constantsFile := "k.ts".toList }

def smallRoot : Path := ⟨.root, ["w".toList]⟩

end NestClient
