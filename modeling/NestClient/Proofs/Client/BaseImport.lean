import NestClient.Client.Source
import NestClient.Proofs.Path.FromRoot

/-! Where the imports of the base services lead.

* `baseImport_resolves`: from the directory of a client, the import leads to the module that has its place
  next to the manifest. -/

namespace NestClient.Client

variable {config : Config} {file module : Text}

/-- The directory that the base services have their places in. -/
def manifestDirectory (config : Config) : Text := Path.directory (Path.normalize config.manifestPath)

/-- An import names the way to the module; `./` in front of it changes nothing. -/
theorem baseImport_eq {way : Text}
    (h : Path.relative? (Path.under (manifestDirectory config) module)
      (Path.directory (Path.under (Path.normalize config.outputDir) file)) = some way)
    (hway : way.head? ≠ some '/') :
    ∃ named, baseImport config file module = .ok named ∧ named.head? ≠ some '/' ∧
      Path.namesOf named = Path.namesOf way := by
  have hok : baseImport config file module
      = .ok (if way.head? = some '.' then way else "./".toList ++ way) := by
    unfold manifestDirectory at h
    unfold baseImport
    dsimp only
    rw [h]
  refine ⟨_, hok, ?_, ?_⟩
  · split
    · exact hway
    · exact fun heq => by cases heq
  · split
    · rfl
    · exact Path.namesOf_append_cons ['.'] way

/-- The import leads from the directory of a client's file to the module in the manifest's directory,
wherever the file lies below the output directory. -/
theorem baseImport_resolves (houtput : config.outputDir.head? ≠ some '/')
    (hmanifest : config.manifestPath.head? ≠ some '/') (hfile : file.head? ≠ some '/')
    (hmodule : module.head? ≠ some '/') (hne : module ≠ []) :
    ∃ named, baseImport config file module = .ok named ∧
      Path.fromRoot (Path.under (Path.directory (Path.under config.outputDir file)) named)
        = Path.fromRoot (Path.under (manifestDirectory config) module) ∧
      Path.fromRoot (manifestDirectory config) = Path.directory (Path.fromRoot config.manifestPath) := by
  have hbase : (manifestDirectory config).head? ≠ some '/' :=
    Path.head?_directory (Path.head?_normalize hmanifest)
  have htarget : (Path.under (manifestDirectory config) module).head? ≠ some '/' :=
    Path.head?_under hbase hmodule
  have hstart : (Path.directory (Path.under (Path.normalize config.outputDir) file)).head? ≠ some '/' :=
    Path.head?_directory (Path.head?_under (Path.head?_normalize houtput) hfile)
  obtain ⟨way, hway, hhead, hnames⟩ :=
    Path.exists_relative? hstart htarget (Path.under_ne_nil _ hne)
  obtain ⟨named, hok, hnamed, heq⟩ := baseImport_eq hway hhead
  refine ⟨named, hok, ?_, Path.fromRoot_directory hmanifest⟩
  have houtputNames : ∀ n ∈ Path.namesOf config.outputDir, Path.IsName n :=
    fun n hn => Path.isName_of_mem_namesOf hn
  -- both sides go through the output directory, which the import takes in its normal form
  rw [Path.namesOf_directory_under _ hfile, Path.namesOf_normalize houtput, List.append_assoc,
    Path.normalNames_append houtputNames] at hnames
  rw [Path.fromRoot_eq (Path.head?_under (Path.head?_directory (Path.head?_under houtput hfile)) hnamed),
    Path.fromRoot_eq htarget, Path.namesOf_under _ hnamed, Path.namesOf_directory_under _ hfile, heq,
    List.append_assoc, hnames]

/-- A manifest and an output directory in different parts of the workspace, and a client two folders
below. -/
def scatteredConfig : Config :=
  { outputDir := "./gen/../out//api/".toList, manifestPath := "../packages/x/index.ts".toList }

theorem baseImport_resolves_scattered :
    let file := "admin/team/api-team.service.ts".toList
    let module := "services/base-api.service".toList
    (scatteredConfig.outputDir.head? ≠ some '/' ∧ scatteredConfig.manifestPath.head? ≠ some '/' ∧
      file.head? ≠ some '/' ∧ module.head? ≠ some '/' ∧ module ≠ []) ∧
    ∃ named, baseImport scatteredConfig file module = .ok named ∧
      Path.fromRoot (Path.under (Path.directory (Path.under scatteredConfig.outputDir file)) named)
        = Path.fromRoot (Path.under (manifestDirectory scatteredConfig) module) := by
  intro file module
  have hpaths : scatteredConfig.outputDir.head? ≠ some '/' ∧
      scatteredConfig.manifestPath.head? ≠ some '/' ∧ file.head? ≠ some '/' ∧
      module.head? ≠ some '/' ∧ module ≠ [] := by decide
  obtain ⟨houtput, hmanifest, hfile, hmodule, hne⟩ := hpaths
  obtain ⟨named, hok, hleads, -⟩ := baseImport_resolves houtput hmanifest hfile hmodule hne
  exact ⟨⟨houtput, hmanifest, hfile, hmodule, hne⟩, named, hok, hleads⟩

example : baseImport scatteredConfig "admin/team/api-team.service.ts".toList
    "services/base-api.service".toList
      = .ok "../../../../packages/x/services/base-api.service".toList := by
  rfl

end NestClient.Client
