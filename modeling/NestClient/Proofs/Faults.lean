import NestClient.Generation
import NestClient.Proofs.Disk.Scan
import NestClient.Proofs.Generation.Ready
import NestClient.Proofs.Session

/-! What a single file can do to a run. A file that has no model is passed over, whatever its bytes are;
one that a link outside of the workspace makes part of it has no name there and stops the run.

* `Project.Accounts`: each scanned file is loaded or passed over.
* `Disk.Strays`: the one way in which a file stops a run.
* `faults_isolated`: a run goes through exactly if no file strays. -/

namespace NestClient

open Steps NestClient.Action

/-! ## Models of scanned files -/

namespace Disk

/-- The model of the file at a path of a workspace, or what is wrong with it. -/
def sourceAt (d : Disk) (root p : Path) : Except SourceProblem SourceFile :=
  SourceFile.ofBytes (p.nameFrom root) ((d.bytesAt? p).getD [])

/-- The model of one more file of a workspace, if it is there and has one. -/
def fileAt (d : Disk) (root : Path) (file : Text) : Option SourceFile :=
  match d.find? (root.append (.ofText file)) with
  | some (m, .file bytes) =>
    (SourceFile.ofBytes ((⟨.root, m⟩ : Path).nameFrom root) bytes).toOption
  | _ => none

/-- The patterns can be read, and no file that they match is outside of the workspace. -/
def Loadable (d : Disk) (root : Path) (config : Config) : Prop :=
  ∃ paths, d.scan root config.controllerGlobs config.ignoredDirs = .ok paths ∧
    ∀ p ∈ paths, (p.relativeTo? root).isSome

/-- The constants that the controllers of a workspace share. -/
def constantsAt (d : Disk) (root : Path) (config : Config) : Constants :=
  ((d.fileAt root config.constantsFile).map SourceFile.constants).getD []

/-- The path leads to a text outside of the workspace. -/
def Strays (d : Disk) (root p : Path) : Prop :=
  ∃ m bytes source, d.find? p = some (m, .file bytes) ∧ Utf8.decode bytes = .ok source ∧
    (⟨.root, m⟩ : Path).relativeTo? root = none

end Disk

theorem SourceFile.path_of_ofBytes {name : Text} {bytes : List UInt8} {f : SourceFile}
    (h : ofBytes name bytes = .ok f) : f.path = name := by
  unfold ofBytes ofText at h
  split at h
  · split at h
    · obtain rfl := Except.ok.inj h
      rfl
    · cases h
  · cases h

/-! ## Single files -/

namespace Project

variable {d : Disk} {root p : Path} {m : Location} {bytes : List UInt8} {s : Session}

theorem succeeds_relative (hbelow : (p.relativeTo? root).isSome) :
    (Action.relative p root).Succeeds s (· = p.nameFrom root) := by
  obtain ⟨below, hbelow⟩ := Option.isSome_iff_exists.1 hbelow
  rw [Action.relative, Path.nameFrom, hbelow]
  exact succeeds_pure rfl

theorem fails_relative (hbelow : p.relativeTo? root = none) : (Action.relative p root).Fails s := by
  rw [Action.relative, hbelow]
  exact ⟨_, s.events, rfl⟩

section File

variable (h : d.IsTree) (hs : s.disk = d) (hfind : d.find? p = some (m, .file bytes))

include h hs hfind

theorem run_readFile : (readFile root p).run.run s = (match Utf8.decode bytes with
    | .error fault => pure (.error (.undecodable fault))
    | .ok _ => do
      let name ← Action.relative ⟨.root, m⟩ root
      return SourceFile.ofBytes name bytes : Action (Except SourceProblem SourceFile)).run.run s := by
  have hread : (readFile root p).run.run s = (match Utf8.decode ((d.bytesAt? p).getD []) with
      | .error fault => pure (.error (.undecodable fault))
      | .ok _ => do
        let name ← Action.relative ((d.resolve p).toOption.getD p) root
        return SourceFile.ofBytes name ((d.bytesAt? p).getD []) :
          Action (Except SourceProblem SourceFile)).run.run s := by
    rw [← hs]
    rfl
  have hbytes : (d.bytesAt? p).getD [] = bytes := by
    rw [Disk.bytesAt?, hfind]
    rfl
  have hresolve : (d.resolve p).toOption.getD p = ⟨.root, m⟩ := by
    rw [Disk.resolve_of_find? h hfind]
    rfl
  rw [hread, hbytes, hresolve]

/-- A file in the workspace is read, and the model is told apart from what is wrong with the file. -/
theorem succeeds_readFile (hbelow : ((⟨.root, m⟩ : Path).relativeTo? root).isSome) :
    (readFile root p).Succeeds s
      (· = SourceFile.ofBytes ((⟨.root, m⟩ : Path).nameFrom root) bytes) := by
  unfold Succeeds
  rw [run_readFile h hs hfind]
  cases hdecode : Utf8.decode bytes with
  | error fault =>
    rw [SourceFile.ofBytes, hdecode]
    exact succeeds_pure rfl
  | ok source =>
    refine (succeeds_relative hbelow).bind ?_
    rintro _ events rfl
    exact succeeds_pure rfl

/-- Bytes that are no text are no model, wherever the file is. -/
theorem succeeds_readFile_undecodable {fault : Utf8Fault}
    (hdecode : Utf8.decode bytes = .error fault) :
    (readFile root p).Succeeds s (· = .error (.undecodable fault)) := by
  unfold Succeeds
  rw [run_readFile h hs hfind, hdecode]
  exact succeeds_pure rfl

theorem fails_readFile {source : Text} (hdecode : Utf8.decode bytes = .ok source)
    (hbelow : (⟨.root, m⟩ : Path).relativeTo? root = none) : (readFile root p).Fails s := by
  unfold Fails
  rw [run_readFile h hs hfind, hdecode]
  exact (fails_relative hbelow).of_bind

end File

/-! ## The pass over the files -/

def withFile (project : Project) (p : Path) : Except SourceProblem SourceFile → Project
  | .ok f => { project with files := project.files ++ [f] }
  | .error _ => { project with skipped := project.skipped ++ [p.nameFrom project.root] }

theorem root_withFile (project : Project) (p : Path) (r : Except SourceProblem SourceFile) :
    (project.withFile p r).root = project.root := by
  cases r <;> rfl

section Pass

variable (h : d.IsTree) (hs : s.disk = d) (hfile : d.get? m = some (.file bytes)) {project : Project}

include h hs hfile

theorem succeeds_addFile (hbelow : ((⟨.root, m⟩ : Path).relativeTo? project.root).isSome) :
    (addFile project ⟨.root, m⟩).Succeeds s
      (· = project.withFile ⟨.root, m⟩ (d.sourceAt project.root ⟨.root, m⟩)) := by
  have hfind : d.find? ⟨.root, m⟩ = some (m, .file bytes) := h.find?_location hfile (by simp)
  have hsource : d.sourceAt project.root ⟨.root, m⟩
      = SourceFile.ofBytes ((⟨.root, m⟩ : Path).nameFrom project.root) bytes := by
    rw [Disk.sourceAt, Disk.bytesAt?, hfind]
    rfl
  rw [hsource, addFile]
  refine (succeeds_readFile h hs hfind hbelow).bind ?_
  rintro _ events rfl
  cases SourceFile.ofBytes ((⟨.root, m⟩ : Path).nameFrom project.root) bytes with
  | ok f => exact succeeds_pure rfl
  | error problem =>
    refine (succeeds_report _).bind fun _ _ _ => (succeeds_relative hbelow).bind ?_
    rintro _ events rfl
    exact succeeds_pure rfl

theorem fails_addFile (hbelow : (⟨.root, m⟩ : Path).relativeTo? project.root = none) :
    (addFile project ⟨.root, m⟩).Fails s := by
  have hfind : d.find? ⟨.root, m⟩ = some (m, .file bytes) := h.find?_location hfile (by simp)
  rw [addFile]
  cases hdecode : Utf8.decode bytes with
  | ok source => exact (fails_readFile h hs hfind hdecode hbelow).of_bind
  | error fault =>
    refine (succeeds_readFile_undecodable h hs hfind hdecode).bind_fails ?_
    rintro _ events rfl
    exact (succeeds_report _).bind_fails fun _ _ _ => (fails_relative hbelow).of_bind

end Pass

/-- The project with the files of a pass, those that have a model and those that have none. -/
def withFiles (project : Project) (d : Disk) (paths : List Path) : Project :=
  { project with
    files := project.files ++ paths.filterMap fun p => (d.sourceAt project.root p).toOption
    skipped := project.skipped ++ (paths.filter fun p => !(d.sourceAt project.root p).isOk).map
      (·.nameFrom project.root) }

theorem withFiles_cons (project : Project) (d : Disk) (p : Path) (paths : List Path) :
    project.withFiles d (p :: paths)
      = (project.withFile p (d.sourceAt project.root p)).withFiles d paths := by
  cases hsource : d.sourceAt project.root p with
  | ok f => simp [withFiles, withFile, hsource, Except.toOption, Except.isOk, Except.toBool]
  | error problem => simp [withFiles, withFile, hsource, Except.toOption, Except.isOk, Except.toBool]

section Passes

variable (h : d.IsTree) {paths : List Path}
  (hpaths : ∀ p ∈ paths, ∃ m bytes, p = ⟨.root, m⟩ ∧ d.get? m = some (.file bytes)) (project : Project)

include h hpaths

/-- The induction is over the project so far, whose root stays. -/
theorem succeeds_foldlM_addFile (hs : s.disk = d)
    (hbelow : ∀ p ∈ paths, (p.relativeTo? project.root).isSome) :
    (paths.foldlM addFile project).Succeeds s (· = project.withFiles d paths) := by
  induction paths generalizing project s with
  | nil => exact succeeds_pure (by simp [withFiles])
  | cons p paths ih =>
    obtain ⟨m, bytes, rfl, hfile⟩ := hpaths p List.mem_cons_self
    rw [List.foldlM_cons, withFiles_cons]
    refine (succeeds_addFile h hs hfile (hbelow _ List.mem_cons_self)).bind ?_
    rintro _ events rfl
    refine ih (fun q hq => hpaths q (List.mem_cons_of_mem _ hq)) _ hs fun q hq => ?_
    rw [root_withFile]
    exact hbelow q (List.mem_cons_of_mem _ hq)

theorem fails_foldlM_addFile (hs : s.disk = d) (hp : p ∈ paths)
    (hbelow : p.relativeTo? project.root = none) : (paths.foldlM addFile project).Fails s := by
  induction paths generalizing project s with
  | nil => cases hp
  | cons first paths ih =>
    obtain ⟨m, bytes, rfl, hfile⟩ := hpaths first List.mem_cons_self
    rw [List.foldlM_cons]
    cases hfirst : (⟨.root, m⟩ : Path).relativeTo? project.root with
    | none => exact (fails_addFile h hs hfile hfirst).of_bind
    | some below =>
      have hmore : p ∈ paths := by
        refine (List.mem_cons.1 hp).resolve_left ?_
        rintro rfl
        rw [hbelow] at hfirst
        cases hfirst
      refine (succeeds_addFile h hs hfile (Option.isSome_of_eq_some hfirst)).bind_fails ?_
      rintro _ events rfl
      refine ih (fun q hq => hpaths q (List.mem_cons_of_mem _ hq)) _ hs hmore ?_
      rw [root_withFile]
      exact hbelow

end Passes

/-! ## Loading -/

/-- Each scanned file is loaded or passed over, once and in the order of the scan, and goes by a name of
its own. -/
structure Accounts (project : Project) (d : Disk) (root : Path) (paths : List Path) : Prop where
  files : project.files = paths.filterMap fun p => (d.sourceAt root p).toOption
  loaded : project.files.map (·.path)
    = (paths.filter fun p => (d.sourceAt root p).isOk).map (·.nameFrom root)
  skipped : project.skipped
    = (paths.filter fun p => !(d.sourceAt root p).isOk).map (·.nameFrom root)
  names : (paths.map (·.nameFrom root)).Nodup

theorem Accounts.length {project : Project} {paths : List Path} (h : project.Accounts d root paths) :
    project.files.length + project.skipped.length = paths.length := by
  have hfiles := congrArg List.length h.loaded
  rw [List.length_map, List.length_map] at hfiles
  have hsplit := List.length_eq_countP_add_countP (fun p => (d.sourceAt root p).isOk) (l := paths)
  rw [hfiles, h.skipped, List.length_map]
  simpa [List.countP_eq_length_filter] using hsplit.symm

theorem map_path_loaded (d : Disk) (root : Path) (paths : List Path) :
    (paths.filterMap fun p => (d.sourceAt root p).toOption).map (·.path)
      = (paths.filter fun p => (d.sourceAt root p).isOk).map (·.nameFrom root) := by
  induction paths with
  | nil => rfl
  | cons p paths ih =>
    rw [List.filterMap_cons, List.filter_cons]
    cases hsource : d.sourceAt root p with
    | ok f =>
      have hpath : f.path = p.nameFrom root := SourceFile.path_of_ofBytes hsource
      exact congrArg₂ List.cons hpath ih
    | error problem => exact ih

section Load

variable {config : Config} (h : d.IsTree)

include h

theorem file_of_mem_scan {paths : List Path}
    (hscan : d.scan root config.controllerGlobs config.ignoredDirs = .ok paths) :
    ∀ p ∈ paths, ∃ m bytes, p = ⟨.root, m⟩ ∧ d.get? m = some (.file bytes) := by
  intro p hp
  obtain ⟨q, m, bytes, -, hfind, rfl⟩ := Disk.mem_scan h hscan hp
  exact ⟨m, bytes, rfl, h.get?_of_find? hfind⟩

theorem accounts_withFiles {paths : List Path}
    (hscan : d.scan root config.controllerGlobs config.ignoredDirs = .ok paths)
    (hbelow : ∀ p ∈ paths, (p.relativeTo? root).isSome) (configPath : Path) :
    (withFiles { root, configPath } d paths).Accounts d root paths where
  files := rfl
  loaded := map_path_loaded d root paths
  skipped := rfl
  names := by
    have hnames : ∀ p ∈ paths, ∀ n ∈ p.names, Path.IsName n := by
      intro p hp n hn
      obtain ⟨m, bytes, rfl, hfile⟩ := file_of_mem_scan h hscan p hp
      exact (h.isEntryName hfile hn).toIsName
    refine List.pairwise_map.2 ((Disk.nodup_scan hscan).imp_of_mem fun hp hq hne heq => hne ?_)
    exact Path.nameFrom_injective (hbelow _ hp) (hbelow _ hq) (hnames _ hp) (hnames _ hq) heq

variable (hs : s.disk = d) (hconfig : d.isFile (root.append (.ofText config.tsconfigPath)) = true)

include hs hconfig

theorem succeeds_load (hload : d.Loadable root config) :
    (load root config).Succeeds s fun project => ∃ paths,
      d.scan root config.controllerGlobs config.ignoredDirs = .ok paths ∧
        project.Accounts d root paths := by
  subst hs
  obtain ⟨paths, hscan, hbelow⟩ := hload
  refine succeeds_disk.bind ?_
  rintro _ events rfl
  dsimp only
  rw [hconfig, hscan]
  refine (succeeds_report _).bind fun _ events _ => ?_
  let start : Project := { root, configPath := root.append (.ofText config.tsconfigPath) }
  refine (succeeds_foldlM_addFile (s := { s with events }) h (file_of_mem_scan h hscan) start rfl
    hbelow).mono ?_
  rintro _ rfl
  exact ⟨paths, rfl, accounts_withFiles h hscan hbelow _⟩

theorem fails_load (hload : ¬d.Loadable root config) : (load root config).Fails s := by
  subst hs
  refine succeeds_disk.bind_fails ?_
  rintro _ events rfl
  dsimp only
  rw [hconfig]
  refine (succeeds_report _).bind_fails fun _ events _ => ?_
  cases hscan : s.disk.scan root config.controllerGlobs config.ignoredDirs with
  | error problem => exact ⟨_, _, rfl⟩
  | ok paths =>
    have hout : ∃ p ∈ paths, p.relativeTo? root = none := by
      by_contra hall
      refine hload ⟨paths, hscan, fun p hp => Option.isSome_iff_ne_none.2 fun hnone => ?_⟩
      exact hall ⟨p, hp, hnone⟩
    obtain ⟨p, hp, hnone⟩ := hout
    exact fails_foldlM_addFile h (file_of_mem_scan h hscan) _ rfl hp hnone

end Load

/-! ## One more file -/

section LoadFile

variable (h : d.IsTree) (hs : s.disk = d) {file : Text}

include h hs

theorem succeeds_loadFile_eq (hstays : ¬d.Strays root (root.append (.ofText file))) :
    (loadFile root file).Succeeds s (· = d.fileAt root file) := by
  subst hs
  refine succeeds_disk.bind ?_
  rintro _ events rfl
  cases hfile : s.disk.isFile (root.append (.ofText file)) with
  | false =>
    refine succeeds_pure ?_
    rw [Disk.fileAt]
    split
    next m bytes hfind => rw [Disk.isFile_iff.2 ⟨m, bytes, hfind⟩] at hfile; cases hfile
    next => rfl
  | true =>
    obtain ⟨m, bytes, hfind⟩ := Disk.isFile_iff.1 hfile
    have hread : (readFile root (root.append (.ofText file))).Succeeds { s with events }
        fun r => r.toOption = s.disk.fileAt root file := by
      rw [Disk.fileAt, hfind]
      cases hdecode : Utf8.decode bytes with
      | error fault =>
        refine (succeeds_readFile_undecodable (s := { s with events }) h rfl hfind hdecode).mono ?_
        rintro _ rfl
        show none = (SourceFile.ofBytes _ bytes).toOption
        rw [SourceFile.ofBytes, hdecode]
        rfl
      | ok source =>
        have hbelow : ((⟨.root, m⟩ : Path).relativeTo? root).isSome :=
          Option.isSome_iff_ne_none.2 fun hnone => hstays ⟨m, bytes, source, hfind, hdecode, hnone⟩
        refine (succeeds_readFile (s := { s with events }) h rfl hfind hbelow).mono ?_
        rintro _ rfl
        rfl
    refine hread.bind fun r events hr => ?_
    cases r with
    | ok f => exact succeeds_pure hr
    | error problem => exact (succeeds_report _).bind fun _ _ _ => succeeds_pure hr

theorem succeeds_loadFile (hstays : ¬d.Strays root (root.append (.ofText file))) :
    (loadFile root file).Succeeds s fun _ => True :=
  (succeeds_loadFile_eq h hs hstays).mono fun _ _ => trivial

theorem fails_loadFile (hstrays : d.Strays root (root.append (.ofText file))) :
    (loadFile root file).Fails s := by
  subst hs
  obtain ⟨m, bytes, source, hfind, hdecode, hnone⟩ := hstrays
  refine succeeds_disk.bind_fails ?_
  rintro _ events rfl
  rw [Disk.isFile_iff.2 ⟨m, bytes, hfind⟩]
  exact (fails_readFile (s := { s with events }) h rfl hfind hdecode hnone).of_bind

end LoadFile

end Project

/-! ## The analysis -/

section Analyze

variable {d : Disk} {root : Path} {config : Config} {s : Session} (h : d.IsTree) (hs : s.disk = d)
  (hconfig : d.isFile (root.append (.ofText config.tsconfigPath)) = true)

include h hs hconfig

theorem succeeds_analyze_eq (hload : d.Loadable root config)
    (hstays : ¬d.Strays root (root.append (.ofText config.constantsFile))) :
    (analyze root config).Succeeds s fun analysis => ∃ paths, ∃ project : Project,
      d.scan root config.controllerGlobs config.ignoredDirs = .ok paths ∧
        project.Accounts d root paths ∧
        analysis = project.analyze config (d.constantsAt root config) := by
  refine (Project.succeeds_load h hs hconfig hload).bind ?_
  rintro project events ⟨paths, hscan, haccounts⟩
  have hconstants : (Project.sharedConstants root config).Succeeds { s with events }
      (· = d.constantsAt root config) := by
    refine (Project.succeeds_loadFile_eq (s := { s with events }) h hs hstays).bind ?_
    rintro _ events rfl
    exact succeeds_pure rfl
  refine hconstants.bind ?_
  rintro _ events rfl
  refine (succeeds_report _).bind fun _ events _ => ?_
  exact succeeds_pure ⟨paths, project, hscan, haccounts, rfl⟩

theorem succeeds_analyze (hload : d.Loadable root config)
    (hstays : ¬d.Strays root (root.append (.ofText config.constantsFile))) :
    (analyze root config).Succeeds s fun analysis => ∃ paths,
      d.scan root config.controllerGlobs config.ignoredDirs = .ok paths ∧
        analysis.filesScanned = paths.length := by
  refine (succeeds_analyze_eq h hs hconfig hload hstays).mono ?_
  rintro _ ⟨paths, project, hscan, haccounts, rfl⟩
  exact ⟨paths, hscan, haccounts.length⟩

theorem fails_analyze (hfault : ¬d.Loadable root config ∨
    d.Strays root (root.append (.ofText config.constantsFile))) : (analyze root config).Fails s := by
  by_cases hload : d.Loadable root config
  · have hstrays := hfault.resolve_left (not_not_intro hload)
    refine (Project.succeeds_load h hs hconfig hload).bind_fails fun project events _ => ?_
    exact (Project.fails_loadFile (s := { s with events }) h hs hstrays).of_bind.of_bind
  · exact (Project.fails_load h hs hconfig hload).of_bind

/-- In a workspace with its configuration file, whatever its files hold: loading the project, loading one
more file and the analysis go through exactly if no file that they read is outside of the workspace and the
patterns can be read. Each scanned file is then accounted for. -/
theorem faults_isolated :
    (d.Loadable root config → (Project.load root config).Succeeds s fun project => ∃ paths,
      d.scan root config.controllerGlobs config.ignoredDirs = .ok paths ∧
        project.Accounts d root paths) ∧
    (¬d.Loadable root config → (Project.load root config).Fails s) ∧
    (∀ file, (¬d.Strays root (root.append (.ofText file)) →
        (Project.loadFile root file).Succeeds s fun _ => True) ∧
      (d.Strays root (root.append (.ofText file)) → (Project.loadFile root file).Fails s)) ∧
    (d.Loadable root config ∧ ¬d.Strays root (root.append (.ofText config.constantsFile)) →
      (analyze root config).Succeeds s fun analysis => ∃ paths,
        d.scan root config.controllerGlobs config.ignoredDirs = .ok paths ∧
          analysis.filesScanned = paths.length) ∧
    (¬d.Loadable root config ∨ d.Strays root (root.append (.ofText config.constantsFile)) →
      (analyze root config).Fails s) :=
  ⟨Project.succeeds_load h hs hconfig, Project.fails_load h hs hconfig,
    fun _ => ⟨Project.succeeds_loadFile h hs, Project.fails_loadFile h hs⟩,
    fun hgood => succeeds_analyze h hs hconfig hgood.1 hgood.2, fails_analyze h hs hconfig⟩

end Analyze

/-- A file that is no text, one that breaks off, and one that is well formed. -/
def mixedEntries : List (Location × Entry) := entriesAt [
  ("w", .directory), ("w/t.json", .file []), ("w/src", .directory), ("w/src/a.ts", .file [255]),
  ("w/src/b.ts", .file (Utf8.encode "class B \x7b".toList)), ("w/src/c.ts", .file [])]

/-- A link to a file outside of the workspace. -/
def strayEntries : List (Location × Entry) := entriesAt [
  ("w", .directory), ("w/t.json", .file []), ("w/src", .directory), ("w/src/c.ts", .file []),
  ("w/src/d.ts", .link "../../d.ts".toList), ("d.ts", .file [])]

theorem faults_isolated_small :
    ((analyze smallRoot smallConfig).Succeeds ⟨⟨mixedEntries⟩, []⟩ fun analysis => ∃ paths,
      (⟨mixedEntries⟩ : Disk).scan smallRoot smallConfig.controllerGlobs smallConfig.ignoredDirs
        = .ok paths ∧ analysis.filesScanned = paths.length) ∧
    (analyze smallRoot smallConfig).Fails ⟨⟨strayEntries⟩, []⟩ := by
  constructor
  · obtain ⟨paths, hscan⟩ := exists_of_isOk (x := (⟨mixedEntries⟩ : Disk).scan smallRoot
      smallConfig.controllerGlobs smallConfig.ignoredDirs) (by decide +kernel)
    have hbelow : ∀ paths ∈ ((⟨mixedEntries⟩ : Disk).scan smallRoot smallConfig.controllerGlobs
        smallConfig.ignoredDirs).toOption, ∀ p ∈ paths, (p.relativeTo? smallRoot).isSome := by
      decide +kernel
    have hload : (⟨mixedEntries⟩ : Disk).Loadable smallRoot smallConfig :=
      ⟨paths, hscan, hbelow paths (by rw [hscan]; rfl)⟩
    have hstays : ¬(⟨mixedEntries⟩ : Disk).Strays smallRoot
        (smallRoot.append (.ofText smallConfig.constantsFile)) := by
      rintro ⟨m, bytes, source, hfind, -⟩
      have hfile := Disk.isFile_iff.2 ⟨m, bytes, hfind⟩
      revert hfile
      decide +kernel
    exact (faults_isolated (s := ⟨⟨mixedEntries⟩, []⟩) (by decide +kernel) rfl
      (by decide +kernel)).2.2.2.1 ⟨hload, hstays⟩
  · have hout : ∀ paths ∈ ((⟨strayEntries⟩ : Disk).scan smallRoot smallConfig.controllerGlobs
        smallConfig.ignoredDirs).toOption, ∃ p ∈ paths, (p.relativeTo? smallRoot).isNone := by
      decide +kernel
    refine (faults_isolated (s := ⟨⟨strayEntries⟩, []⟩) (by decide +kernel) rfl
      (by decide +kernel)).2.2.2.2 (.inl ?_)
    rintro ⟨paths, hscan, hbelow⟩
    obtain ⟨p, hp, hnone⟩ := hout paths (by rw [hscan]; rfl)
    rw [Option.isNone_iff_eq_none] at hnone
    have hsome := hbelow p hp
    rw [hnone] at hsome
    cases hsome

end NestClient
