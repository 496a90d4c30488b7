import NestClient.Generation
import NestClient.Proofs.Client.FilePath
import NestClient.Proofs.Disk.Scan
import NestClient.Proofs.Session

/-! What an analysis reads from a disk.

* `IsInput`: the paths of the files that an analysis reads.
* `reads_analyze`: on disks that agree on all that its inputs pass, an analysis finds the same, and the
  clients that it plans have their files below the output directory. -/

namespace NestClient

open Disk NestClient.Action

/-! ## Files -/

/-- The file is known by names that entries can have, and so is each of its classes. -/
structure SourceFile.Placed (f : SourceFile) : Prop where
  path : ∃ names, (∀ n ∈ names, IsEntryName n) ∧ f.path = (⟨.here, names⟩ : Path).text
  classes : ∀ c ∈ f.classes, '/' ∉ c.name

/-- The names of a class come from the grammar. -/
theorem SourceFile.placed_of_ofBytes {name : Text} {bytes : List UInt8} {f : SourceFile}
    (h : SourceFile.ofBytes name bytes = .ok f) {names : List Text}
    (hnames : ∀ n ∈ names, IsEntryName n) (hname : name = (⟨.here, names⟩ : Path).text) :
    f.Placed := by
  unfold ofBytes ofText at h
  split at h
  · split at h
    next statements _ =>
      obtain rfl := Except.ok.inj h
      refine ⟨⟨names, hnames, hname⟩, ?_⟩
      intro c hc
      obtain ⟨s, -, hs⟩ := List.mem_filterMap.1 hc
      cases s with
      | classDecl outer node =>
        obtain rfl := Option.some.inj hs
        exact node.name.slash
      | importing i => cases hs
      | bindings declared => cases hs
      | other => cases hs
    next => cases h
  · cases h

namespace Project

variable {d d' : Disk} {root p : Path} {m : Location} {bytes : List UInt8}

theorem reads_readFile (h : d.IsTree) (h' : d'.IsTree) (hfind : d.find? p = some (m, .file bytes))
    (hfind' : d'.find? p = some (m, .file bytes)) :
    Reads d d' (readFile root p) (readFile root p) fun r => ∀ f, r = .ok f → f.Placed := by
  refine alongside_disk ?_
  have hbytes : (d.bytesAt? p).getD [] = bytes := by rw [bytesAt?, hfind]; rfl
  have hbytes' : (d'.bytesAt? p).getD [] = bytes := by rw [bytesAt?, hfind']; rfl
  have hresolve : (d.resolve p).toOption.getD p = ⟨.root, m⟩ := by
    rw [resolve_of_find? h hfind]
    rfl
  have hresolve' : (d'.resolve p).toOption.getD p = ⟨.root, m⟩ := by
    rw [resolve_of_find? h' hfind']
    rfl
  dsimp only
  rw [hbytes, hbytes', hresolve, hresolve']
  cases Utf8.decode bytes with
  | error fault => exact reads_pure (by simp)
  | ok source =>
    refine (reads_relative _ root).bind fun name hname => ?_
    obtain ⟨below, hbelow, rfl⟩ := Option.map_eq_some_iff.1 hname
    obtain ⟨rest, hm, rfl⟩ := Path.relativeTo?_eq_some hbelow
    refine reads_pure fun f hf => SourceFile.placed_of_ofBytes hf ?_ rfl
    intro n hn
    have hmem : n ∈ m := (Path.mk.inj hm).2 ▸ List.mem_append_right _ hn
    exact h.isEntryName (h.get?_of_find? hfind) hmem

theorem reads_addFile (h : d.IsTree) (h' : d'.IsTree) (hfind : d.find? p = some (m, .file bytes))
    (hfind' : d'.find? p = some (m, .file bytes)) {project : Project}
    (hproject : ∀ f ∈ project.files, f.Placed) :
    Reads d d' (addFile project p) (addFile project p) fun result =>
      ∀ f ∈ result.files, f.Placed := by
  refine (reads_readFile h h' hfind hfind').bind fun r hr => ?_
  cases r with
  | ok f =>
    refine reads_pure ?_
    intro g hg
    rcases List.mem_append.1 hg with hg | hg
    · exact hproject g hg
    · rw [List.mem_singleton.1 hg]
      exact hr f rfl
  | error problem =>
    refine (reads_report _).bind fun _ _ => ?_
    refine (reads_relative p project.root).bind fun name _ => ?_
    exact reads_pure hproject

/-! ## The project -/

/-- The path of a file that an analysis reads. -/
def IsInput (d : Disk) (root : Path) (config : Config) (p : Path) : Prop :=
  p = root.append (.ofText config.tsconfigPath) ∨ p = root.append (.ofText config.constantsFile) ∨
    d.Scanned root config.controllerGlobs config.ignoredDirs p

/-- The paths of the files that an analysis may read. -/
def inputPaths (d : Disk) (root : Path) (config : Config) : List Path :=
  [root.append (.ofText config.tsconfigPath), root.append (.ofText config.constantsFile)]
    ++ ((config.controllerGlobs.filterMap fun t => (PathPattern.ofText t).toOption).flatMap
      (d.matches root)).map fun names => root.append ⟨.here, names⟩

theorem IsInput.mem_inputPaths {config : Config} (h : IsInput d root config p) :
    p ∈ inputPaths d root config := by
  rcases h with rfl | rfl | h
  · exact List.mem_cons_self
  · exact List.mem_cons_of_mem _ List.mem_cons_self
  · obtain ⟨names, hnames, rfl⟩ := h.exists_names
    exact List.mem_append_right _ (List.mem_map.2 ⟨names, hnames, rfl⟩)

/-- The disks agree on all that following the inputs of an analysis of the first one looks at. -/
def InputsAgree (d d' : Disk) (root : Path) (config : Config) : Prop :=
  ∀ p, IsInput d root config p → d.isFile p = true → ∀ v, d.Passes p v → d.get? v = d'.get? v

theorem isFile_congr (h : d.isFile p = true → ∀ v, d.Passes p v → d.get? v = d'.get? v)
    (h' : d'.isFile p = true → ∀ v, d'.Passes p v → d'.get? v = d.get? v) :
    d.isFile p = d'.isFile p := by
  rw [Bool.eq_iff_iff]
  constructor
  · intro hfile
    obtain ⟨m, bytes, hfind⟩ := isFile_iff.1 hfile
    exact isFile_iff.2 ⟨m, bytes, find?_congr hfind (h hfile)⟩
  · intro hfile
    obtain ⟨m, bytes, hfind⟩ := isFile_iff.1 hfile
    exact isFile_iff.2 ⟨m, bytes, find?_congr hfind (h' hfile)⟩

section

variable {config : Config} (h : d.IsTree) (h' : d'.IsTree) (hin : InputsAgree d d' root config)
  (hin' : InputsAgree d' d root config)

include h h' hin hin'

theorem reads_load :
    Reads d d' (load root config) (load root config) fun project =>
      ∀ f ∈ project.files, f.Placed := by
  refine alongside_disk ?_
  have hfile := isFile_congr (hin _ (.inl rfl)) (hin' _ (.inl rfl))
  have hscanned : ∀ p, d.Scanned root config.controllerGlobs config.ignoredDirs p →
      ∀ v, d.Passes p v → d.get? v = d'.get? v := fun p hp =>
    hin p (.inr (.inr hp)) (by obtain ⟨_, _, _, _, _, _, rfl, hfile, -⟩ := hp; exact hfile)
  have hscanned' : ∀ p, d'.Scanned root config.controllerGlobs config.ignoredDirs p →
      ∀ v, d'.Passes p v → d'.get? v = d.get? v := fun p hp =>
    hin' p (.inr (.inr hp)) (by obtain ⟨_, _, _, _, _, _, rfl, hfile, -⟩ := hp; exact hfile)
  dsimp only
  rw [hfile, ← scan_congr h h' hscanned hscanned']
  cases d'.isFile (root.append (.ofText config.tsconfigPath)) with
  | false => exact reads_throw _
  | true =>
    rw [if_neg (by decide)]
    refine (reads_report _).bind fun _ _ => ?_
    cases hscan : d.scan root config.controllerGlobs config.ignoredDirs with
    | error problem => exact reads_throw _
    | ok paths =>
      refine reads_foldlM paths ?_ (by simp)
      intro project hproject p hp
      obtain ⟨q, m, bytes, hq, hfind, rfl⟩ := mem_scan h hscan hp
      have hfind' := find?_congr hfind (hscanned q hq)
      have hloc := h.find?_location (h.get?_of_find? hfind) (by simp)
      have hloc' := h'.find?_location (h'.get?_of_find? hfind') (by simp)
      exact reads_addFile h h' hloc hloc' hproject

theorem reads_sharedConstants :
    Reads d d' (sharedConstants root config) (sharedConstants root config) fun _ => True := by
  have hagree := hin _ (.inr (.inl rfl))
  have hfile := isFile_congr hagree (hin' _ (.inr (.inl rfl)))
  have hload : Reads d d' (loadFile root config.constantsFile) (loadFile root config.constantsFile)
      fun _ => True := by
    refine alongside_disk ?_
    dsimp only
    rw [← hfile]
    cases hhere : d.isFile (root.append (.ofText config.constantsFile)) with
    | false => exact reads_pure trivial
    | true =>
      obtain ⟨m, bytes, hfind⟩ := isFile_iff.1 hhere
      have hfind' := find?_congr hfind (hagree hhere)
      rw [if_neg (by decide)]
      refine (reads_readFile h h' hfind hfind').bind fun r _ => ?_
      cases r with
      | ok f => exact reads_pure trivial
      | error problem => exact (reads_report _).bind fun _ _ => reads_pure trivial
  exact hload.bind fun _ _ => reads_pure trivial

end

end Project

/-! ## The analysis -/

/-- The client of the controller has its file below the output directory. -/
structure EndpointGroup.Placed (g : EndpointGroup) : Prop where
  name : '/' ∉ g.name
  folder : ∃ names, (∀ n ∈ names, IsEntryName n) ∧ g.folder = Text.join ['/'] names

theorem Extractor.plan?_eq_some_iff {x : Extractor} {c : Controller} {plan : Plan} :
    x.plan? c = some plan ↔ x.extract c ≠ [] ∧ plan = ⟨c.group, x.extract c⟩ := by
  unfold Extractor.plan?
  dsimp only
  rw [Option.ite_none_left_eq_some, Option.some.injEq, List.isEmpty_iff, eq_comm (a := plan)]

theorem Project.placed_of_mem_plans {project : Project} (h : ∀ f ∈ project.files, f.Placed)
    {config : Config} {constants : Constants} {plan : Plan}
    (hplan : plan ∈ (project.analyze config constants).plans) : plan.group.Placed := by
  obtain ⟨c, hc, hplan⟩ := List.mem_filterMap.1 hplan
  obtain ⟨f, hf, hcontroller⟩ := List.mem_filterMap.1 hc
  obtain ⟨cls, hcls, rfl⟩ := Option.map_eq_some_iff.1 hcontroller
  obtain ⟨-, rfl⟩ := Extractor.plan?_eq_some_iff.1 hplan
  obtain ⟨names, hnames, hpath⟩ := (h f hf).path
  obtain ⟨kept, hkept, hfolder⟩ :=
    controllerFolder_eq (fun n hn => (hnames n hn).toIsName) config
  refine ⟨(h f hf).classes cls (List.mem_of_find?_eq_some hcls), kept, ?_, ?_⟩
  · exact fun n hn => hnames n (hkept n hn)
  · dsimp only
    rw [hpath, hfolder]

/-- On disks that agree on all that its inputs pass, an analysis finds the same. -/
theorem reads_analyze {d d' : Disk} {root : Path} {config : Config} (h : d.IsTree) (h' : d'.IsTree)
    (hin : Project.InputsAgree d d' root config) (hin' : Project.InputsAgree d' d root config) :
    Reads d d' (analyze root config) (analyze root config) fun analysis =>
      ∀ plan ∈ analysis.plans, plan.group.Placed := by
  refine (Project.reads_load h h' hin hin').bind fun project hproject => ?_
  refine (Project.reads_sharedConstants h h' hin hin').bind fun constants _ => ?_
  refine (reads_report _).bind fun _ _ => ?_
  exact reads_pure fun plan hplan => Project.placed_of_mem_plans hproject hplan

end NestClient
