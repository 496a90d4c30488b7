import Mathlib.Data.List.Nodup
import NestClient.Proofs.Disk.Shape
import NestClient.Proofs.Faults
import NestClient.Proofs.Project

/-! The files of a workspace are analysed one by one: what stands in one of them has no bearing on what is
found in the others.

* `Analysis.SameBesides`: two analyses that differ in the part of one file at most.
* `analysis_independent`: new contents of a file, whatever they are, change its own part only. -/

namespace NestClient

open NestClient.Action

/-! ## The part of one file -/

namespace Analysis

variable (file : Text) (a a' : Analysis)

/-- The plans for the controllers of other files. -/
def plansBesides : List Plan := a.plans.filter (·.group.sourceFile ≠ file)

/-- The files passed over, without this one. -/
def skippedBesides : List Text := a.skippedFiles.filter (· ≠ file)

/-- The analyses differ at most in the part that comes from one file. -/
structure SameBesides : Prop where
  apiPrefix : a'.apiPrefix = a.apiPrefix
  filesScanned : a'.filesScanned = a.filesScanned
  plans : a'.plansBesides file = a.plansBesides file
  skipped : a'.skippedBesides file = a.skippedBesides file

/-- The file has a plan at most, or else it was passed over once. -/
def CountsOnce : Prop :=
  a.plans.countP (·.group.sourceFile = file) ≤ 1 ∧ file ∉ a.skippedFiles ∨
    a.plans.countP (·.group.sourceFile = file) = 0 ∧ a.skippedFiles.count file = 1

end Analysis

/-! ## Results with the names of their items -/

section Named

variable {α β γ : Type} [DecidableEq γ] {result? : α → Option β} {name : α → γ} {key : β → γ}

/-- Dropping the results of one name is dropping its items. -/
theorem filter_filterMap_ne (hkey : ∀ a b, result? a = some b → key b = name a) (items : List α)
    (n : γ) : (items.filterMap result?).filter (key · ≠ n)
      = (items.filter (name · ≠ n)).filterMap result? := by
  induction items with
  | nil => rfl
  | cons a items ih =>
    rw [List.filterMap_cons, List.filter_cons]
    cases hresult : result? a with
    | none =>
      dsimp only
      rw [ih]
      split
      · rw [List.filterMap_cons, hresult]
      · rfl
    | some b =>
      dsimp only
      rw [List.filter_cons, hkey a b hresult, ih]
      split
      · rw [List.filterMap_cons, hresult]
      · rfl

/-- The results of one name come from items of that name. -/
theorem countP_filterMap_le [BEq γ] [LawfulBEq γ] (hkey : ∀ a b, result? a = some b → key b = name a) (items : List α)
    (n : γ) : (items.filterMap result?).countP (key · = n) ≤ (items.map name).count n := by
  induction items with
  | nil => exact Nat.le_refl 0
  | cons a items ih =>
    rw [List.filterMap_cons, List.map_cons, List.count_cons]
    cases hresult : result? a with
    | none => exact Nat.le_add_right_of_le ih
    | some b =>
      dsimp only
      rw [List.countP_cons, hkey a b hresult]
      simpa using ih

end Named

/-! ## Plans by file -/

/-- The plan that a file with a model makes. -/
def Disk.planAt? (d : Disk) (root : Path) (config : Config) (constants : Constants) (p : Path) :
    Option Plan :=
  let apiPrefix := resolvePrefix config constants
  let x : Extractor := { config, apiPrefix, constants }
  ((d.sourceAt root p).toOption.bind fun f => f.controller? config apiPrefix constants).bind x.plan?

section Plans

variable {d d' : Disk} {root p : Path} {config : Config} {constants : Constants}

theorem sourceFile_of_planAt? {plan : Plan} (h : d.planAt? root config constants p = some plan) :
    plan.group.sourceFile = p.nameFrom root := by
  obtain ⟨c, hc, hplan⟩ := Option.bind_eq_some_iff.1 h
  obtain ⟨f, hf, hcontroller⟩ := Option.bind_eq_some_iff.1 hc
  obtain ⟨cls, -, rfl⟩ := Option.map_eq_some_iff.1 hcontroller
  have hpath : f.path = p.nameFrom root := by
    cases hsource : d.sourceAt root p with
    | error problem =>
      rw [hsource] at hf
      cases hf
    | ok g =>
      rw [hsource] at hf
      obtain rfl := Option.some.inj hf
      exact SourceFile.path_of_ofBytes hsource
  obtain ⟨-, rfl⟩ := Extractor.plan?_eq_some_iff.1 hplan
  exact hpath

theorem Project.Accounts.plans {project : Project} {paths : List Path}
    (h : project.Accounts d root paths) (config : Config) (constants : Constants) :
    (project.analyze config constants).plans = paths.filterMap (d.planAt? root config constants) := by
  show List.filterMap _ (List.filterMap _ project.files) = _
  rw [h.files, List.filterMap_filterMap, List.filterMap_filterMap]
  congr 1
  funext p
  rw [Disk.planAt?]
  cases (d.sourceAt root p).toOption <;> rfl

variable {project project' : Project} {paths : List Path}

theorem Project.Accounts.countsOnce (h : project.Accounts d root paths) (hp : p ∈ paths) :
    (project.analyze config constants).CountsOnce (p.nameFrom root) := by
  have hunique : ∀ q ∈ paths, q.nameFrom root = p.nameFrom root → q = p := fun q hq heq =>
    List.inj_on_of_nodup_map h.names hq hp heq
  have hplans : (project.analyze config constants).plans.countP
      (·.group.sourceFile = p.nameFrom root) ≤ 1 := by
    rw [h.plans]
    refine Nat.le_trans (countP_filterMap_le (fun _ _ => sourceFile_of_planAt?) paths _) ?_
    exact List.nodup_iff_count_le_one.1 h.names _
  cases hsource : d.sourceAt root p with
  | ok f =>
    refine .inl ⟨hplans, fun hskipped => ?_⟩
    have hskipped : p.nameFrom root ∈ project.skipped := hskipped
    rw [h.skipped] at hskipped
    obtain ⟨q, hq, hname⟩ := List.mem_map.1 hskipped
    obtain ⟨hq, hbroken⟩ := List.mem_filter.1 hq
    rw [hunique q hq hname, hsource] at hbroken
    cases hbroken
  | error problem =>
    refine .inr ⟨?_, ?_⟩
    · rw [h.plans, List.countP_eq_zero]
      intro plan hplan
      obtain ⟨q, hq, hplan⟩ := List.mem_filterMap.1 hplan
      rw [decide_eq_true_eq, sourceFile_of_planAt? hplan]
      intro hname
      rw [hunique q hq hname, Disk.planAt?, hsource] at hplan
      cases hplan
    · show project.skipped.count _ = 1
      rw [h.skipped]
      refine List.count_eq_one_of_mem ?_ ?_
      · exact h.names.sublist (List.filter_sublist.map _)
      · exact List.mem_map_of_mem (List.mem_filter.2 ⟨hp, by rw [hsource]; rfl⟩)

/-- Projects of the same files that are read from disks which differ at one of them. -/
theorem Project.Accounts.sameBesides (h : project.Accounts d root paths)
    (h' : project'.Accounts d' root paths)
    (hsame : ∀ q ∈ paths, q ≠ p → d'.sourceAt root q = d.sourceAt root q) :
    (project.analyze config constants).SameBesides (p.nameFrom root)
      (project'.analyze config constants) where
  apiPrefix := rfl
  filesScanned := by
    show project'.files.length + project'.skipped.length
      = project.files.length + project.skipped.length
    rw [h.length, h'.length]
  plans := by
    rw [Analysis.plansBesides, Analysis.plansBesides, h.plans, h'.plans,
      filter_filterMap_ne fun _ _ => sourceFile_of_planAt?,
      filter_filterMap_ne fun _ _ => sourceFile_of_planAt?]
    refine List.filterMap_congr fun q hq => ?_
    obtain ⟨hq, hname⟩ := List.mem_filter.1 hq
    have hne : q ≠ p := by
      rintro rfl
      simp at hname
    rw [Disk.planAt?, hsame q hq hne]
    rfl
  skipped := by
    show project'.skipped.filter _ = project.skipped.filter _
    rw [h.skipped, h'.skipped, List.filter_map, List.filter_map, List.filter_filter,
      List.filter_filter]
    congr 1
    refine List.filter_congr fun q hq => ?_
    by_cases hne : q = p
    · simp [hne]
    · rw [hsame q hq hne]

end Plans

/-! ## New contents of a file -/

section NewContents

variable {d : Disk} {root : Path} {config : Config} {m : Location} {bytes bytes' : List UInt8}
  {s s' t : Session}

/-- What an analysis that goes through needs. -/
theorem of_run_analyze {analysis : Analysis} (h : s.disk.IsTree)
    (hrun : (analyze root config).run.run s = (.ok analysis, t)) :
    s.disk.isFile (root.append (.ofText config.tsconfigPath)) = true ∧
      s.disk.Loadable root config ∧
      ¬s.disk.Strays root (root.append (.ofText config.constantsFile)) := by
  have hnot : ¬(analyze root config).Fails s := by
    rintro ⟨failure, events, hfail⟩
    rw [hrun] at hfail
    cases hfail
  have hconfig : s.disk.isFile (root.append (.ofText config.tsconfigPath)) = true := by
    by_contra hmissing
    rw [Bool.not_eq_true] at hmissing
    refine hnot (Fails.of_bind (succeeds_disk.bind_fails ?_))
    rintro _ events rfl
    dsimp only
    rw [hmissing]
    exact ⟨_, _, rfl⟩
  refine ⟨hconfig, ?_, ?_⟩
  · by_contra hload
    exact hnot (fails_analyze h rfl hconfig (.inl hload))
  · intro hstrays
    exact hnot (fails_analyze h rfl hconfig (.inr hstrays))

variable (h : d.IsTree) (hfile : d.get? m = some (.file bytes))

include h hfile

theorem sourceAt_put_file {p : Path} (hp : p ≠ ⟨.root, m⟩) (hthere : ∃ l bytes, p = ⟨.root, l⟩ ∧
    d.get? l = some (.file bytes)) :
    (d.put m (.file bytes')).sourceAt root p = d.sourceAt root p := by
  obtain ⟨l, content, rfl, hcontent⟩ := hthere
  have hne : ∀ e, d.find? ⟨.root, l⟩ ≠ some (m, e) := by
    intro e he
    rw [h.find?_location hcontent (by simp)] at he
    obtain ⟨rfl, -⟩ := Prod.mk.inj (Option.some.inj he)
    exact hp rfl
  rw [Disk.sourceAt, Disk.sourceAt, Disk.bytesAt?, Disk.bytesAt?,
    Disk.find?_put_file_of_ne h hfile hne]

/-- In a workspace that an analysis goes through, a scanned file gets new contents, whatever they are. The
analysis goes through again. -/
theorem analysis_independent {analysis : Analysis} (hs : s.disk = d)
    (hrun : (analyze root config).run.run s = (.ok analysis, t)) {paths : List Path}
    (hscan : d.scan root config.controllerGlobs config.ignoredDirs = .ok paths)
    (hm : ⟨.root, m⟩ ∈ paths)
    (hconstants : ∀ e, d.find? (root.append (.ofText config.constantsFile)) ≠ some (m, e))
    (bytes' : List UInt8) (hs' : s'.disk = d.put m (.file bytes')) :
    analysis.CountsOnce ((⟨.root, m⟩ : Path).nameFrom root) ∧
      (analyze root config).Succeeds s' fun analysis' =>
        analysis.SameBesides ((⟨.root, m⟩ : Path).nameFrom root) analysis' ∧
          analysis'.CountsOnce ((⟨.root, m⟩ : Path).nameFrom root) := by
  subst hs
  obtain ⟨hconfig, hload, hstays⟩ := of_run_analyze h hrun
  obtain ⟨_, events, hrun', paths₁, project, hscan₁, haccounts, rfl⟩ :=
    succeeds_analyze_eq h rfl hconfig hload hstays
  rw [hrun] at hrun'
  obtain rfl := Except.ok.inj (Prod.mk.inj hrun').1
  obtain rfl : paths₁ = paths := Except.ok.inj (hscan₁.symm.trans hscan)
  refine ⟨haccounts.countsOnce hm, ?_⟩
  -- the other disk differs in nothing that the analysis looks at before it reads the file
  have h' : (s.disk.put m (.file bytes')).IsTree := h.put_file hfile
  have hscan' : (s.disk.put m (.file bytes')).scan root config.controllerGlobs config.ignoredDirs
      = s.disk.scan root config.controllerGlobs config.ignoredDirs := Disk.scan_put_file h hfile root _ _
  have hconfig' : (s.disk.put m (.file bytes')).isFile
      (root.append (.ofText config.tsconfigPath)) = true := by
    rw [← Disk.isFile_shape, Disk.shape_put h hfile, Disk.isFile_shape]
    exact hconfig
  have hload' : (s.disk.put m (.file bytes')).Loadable root config := by
    unfold Disk.Loadable
    rw [hscan']
    exact hload
  have hstays' : ¬(s.disk.put m (.file bytes')).Strays root
      (root.append (.ofText config.constantsFile)) := by
    unfold Disk.Strays
    rw [Disk.find?_put_file_of_ne h hfile hconstants]
    exact hstays
  have hsame : (s.disk.put m (.file bytes')).constantsAt root config
      = s.disk.constantsAt root config := by
    rw [Disk.constantsAt, Disk.constantsAt, Disk.fileAt, Disk.fileAt,
      Disk.find?_put_file_of_ne h hfile hconstants]
  refine (succeeds_analyze_eq h' hs' hconfig' hload' hstays').mono ?_
  rintro _ ⟨paths₂, project', hscan₂, haccounts', rfl⟩
  rw [hscan', hscan] at hscan₂
  obtain rfl := Except.ok.inj hscan₂
  rw [hsame]
  refine ⟨haccounts.sameBesides haccounts' fun q hq hne => ?_, haccounts'.countsOnce hm⟩
  exact sourceAt_put_file h hfile hne (Project.file_of_mem_scan h hscan q hq)

end NewContents

def firstSource : Text := "@Controller('a') class A \x7b @Get() f() \x7b\x7d \x7d".toList

def secondSource : Text := "@Controller('b') class B \x7b @Get() g() \x7b\x7d \x7d".toList

/-- Two controllers in files of their own. -/
def pairEntries : List (Location × Entry) := entriesAt [
  ("w", .directory), ("w/t.json", .file []), ("w/src", .directory),
  ("w/src/a.ts", .file (Utf8.encode firstSource)), ("w/src/b.ts", .file (Utf8.encode secondSource))]

def secondLocation : Location := ["w".toList, "src".toList, "b.ts".toList]

theorem analysis_independent_pair : ∃ analysis t,
    (analyze smallRoot smallConfig).run.run ⟨⟨pairEntries⟩, []⟩ = (.ok analysis, t) ∧
      (analyze smallRoot smallConfig).Succeeds
        ⟨(⟨pairEntries⟩ : Disk).put secondLocation (.file [255]), []⟩ fun analysis' =>
          analysis.SameBesides "src/b.ts".toList analysis' ∧
            analysis'.CountsOnce "src/b.ts".toList := by
  have hok : ((analyze smallRoot smallConfig).run.run ⟨⟨pairEntries⟩, []⟩).1.isOk = true := by
    decide +kernel
  obtain ⟨analysis, hanalysis⟩ := exists_of_isOk hok
  obtain ⟨paths, hscan⟩ := exists_of_isOk (x := (⟨pairEntries⟩ : Disk).scan smallRoot
    smallConfig.controllerGlobs smallConfig.ignoredDirs) (by decide +kernel)
  have hmem : ∀ paths ∈ ((⟨pairEntries⟩ : Disk).scan smallRoot smallConfig.controllerGlobs
      smallConfig.ignoredDirs).toOption, (⟨.root, secondLocation⟩ : Path) ∈ paths := by
    decide +kernel
  have hconstants : (⟨pairEntries⟩ : Disk).find?
      (smallRoot.append (.ofText smallConfig.constantsFile)) = none := by
    decide +kernel
  have hfile : (⟨pairEntries⟩ : Disk).get? secondLocation
      = some (.file (Utf8.encode secondSource)) := by
    decide +kernel
  have hname : (⟨.root, secondLocation⟩ : Path).nameFrom smallRoot = "src/b.ts".toList := by
    decide +kernel
  have hrun : (analyze smallRoot smallConfig).run.run ⟨⟨pairEntries⟩, []⟩ = (.ok analysis, _) :=
    Prod.ext hanalysis rfl
  refine ⟨analysis, _, hrun, ?_⟩
  rw [← hname]
  exact (analysis_independent (d := ⟨pairEntries⟩) (by decide +kernel) hfile rfl hrun hscan
    (hmem paths (by rw [hscan]; rfl)) (by rw [hconstants]; simp) [255] rfl).2

/-- The broken file is passed over, and the other controller keeps its plan. -/
example : (((analyze smallRoot smallConfig).start
    ((⟨pairEntries⟩ : Disk).put secondLocation (.file [255]))).1.toOption.map fun analysis =>
      (analysis.plans.map (·.group.name), analysis.skippedFiles))
    = some (["A".toList], ["src/b.ts".toList]) := by
  decide +kernel

end NestClient
