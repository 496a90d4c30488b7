import NestClient.Proofs.Client.Manifest
import NestClient.Proofs.Path.Normal

/-! Where the manifest's exports lead.

* `filePath_concat`: the name of a client's file ends in no dot before its extension.
* `namesOf_importRoot`: from the manifest's directory, the names that an import path leads through.
* `exportedFile_eq_iff`: the manifest points at the file of a client exactly if the output directory is
  that of the manifest or lies below it. -/

namespace NestClient

/-! ## The end of a file's name -/

theorem Text.markHumps_concat (mark : Char) (t : Text) (c : Char) :
    ∃ before, markHumps mark (t ++ [c]) = before ++ [c] := by
  induction t with
  | nil => exact ⟨[], rfl⟩
  | cons a rest ih =>
    obtain ⟨before, hbefore⟩ := ih
    rw [List.cons_append, markHumps, hbefore]
    split
    · exact ⟨a :: mark :: before, rfl⟩
    · exact ⟨a :: before, rfl⟩

/-- Whatever stands in front of a text, the text keeps its hyphens. -/
theorem exists_hyphenate_append (t u : Text) : ∃ before, hyphenate (t ++ u) = before ++ hyphenate u := by
  induction t with
  | nil => exact ⟨[], rfl⟩
  | cons a rest ih =>
    obtain ⟨before, hbefore⟩ := ih
    rw [List.cons_append, hyphenate, hbefore]
    split
    · split
      · exact ⟨before, rfl⟩
      · exact ⟨'-' :: before, rfl⟩
    · exact ⟨a :: before, rfl⟩

theorem hyphenate_concat {c : Char} (hblank : isBlank c = false) (hlow : c ≠ '_') (t : Text) :
    ∃ before, hyphenate (t ++ [c]) = before ++ [c] := by
  obtain ⟨before, h⟩ := exists_hyphenate_append t [c]
  have hself : hyphenate [c] = [c] := if_neg (by simp [hblank, hlow])
  exact ⟨before, h.trans (congrArg (before ++ ·) hself)⟩

theorem Text.lowerAfter_concat {c : Char} (hsigma : c.toNat ≠ 931) (hlower : lowerChar c = [c])
    (before t : Text) : ∃ lowered, lowerAfter before (t ++ [c]) = lowered ++ [c] := by
  induction t generalizing before with
  | nil =>
    refine ⟨[], ?_⟩
    rw [List.nil_append, lowerAfter, if_neg hsigma, hlower]
    rfl
  | cons a rest ih =>
    obtain ⟨lowered, hlowered⟩ := ih (a :: before)
    rw [List.cons_append, lowerAfter, hlowered, ← List.append_assoc]
    exact ⟨_, rfl⟩

theorem kebabCase_concat (t : Text) : ∃ before, kebabCase (t ++ ['e']) = before ++ ['e'] := by
  obtain ⟨marked, hmarked⟩ := Text.markHumps_concat '-' t 'e'
  obtain ⟨hyphened, hhyphened⟩ := hyphenate_concat (c := 'e') (by decide) (by decide) marked
  rw [kebabCase, hmarked, hhyphened]
  exact Text.lowerAfter_concat (by decide) (by decide) [] hyphened

/-- Before its extension, the file of a client ends as the class does. -/
theorem clientFileName_concat (t : Text) :
    ∃ stem, clientFileName (t ++ ['e']) = stem ++ 'e' :: ".ts".toList := by
  obtain ⟨before, hkebab⟩ := kebabCase_concat t
  unfold clientFileName
  dsimp only
  split
  · next head _ => exact ⟨head ++ ".servic".toList, by simp⟩
  · exact ⟨before, by rw [hkebab, List.append_assoc]; rfl⟩

namespace Client

variable {config : Config} {f : GeneratedFile} {g : EndpointGroup}

theorem filePath_concat (g : EndpointGroup) : ∃ stem, filePath g = stem ++ 'e' :: ".ts".toList := by
  obtain ⟨middle, hclass, -⟩ := clientClassName_eq g.name
  have hend : clientClassName g.name = "Api".toList ++ middle ++ "Servic".toList ++ ['e'] := by
    rw [hclass, List.append_assoc _ "Servic".toList]
    rfl
  obtain ⟨stem, hstem⟩ := clientFileName_concat ("Api".toList ++ middle ++ "Servic".toList)
  unfold filePath
  dsimp only
  rw [hend, hstem]
  split
  · exact ⟨stem, rfl⟩
  · exact ⟨g.folder ++ '/' :: stem, by rw [List.append_assoc, List.cons_append]⟩

/-! ## Where an export leads -/

/-- The file that an export of the manifest leads to: its path, taken from the manifest's directory and
with the extension of a module. -/
def exportedFile (config : Config) (c : ClientDescriptor) : Text :=
  Path.normalize (Path.under (Path.ofText config.manifestPath).parent.text c.importPath) ++ ".ts".toList

def writtenFile (config : Config) (f : GeneratedFile) : Text :=
  Path.normalize (Path.under config.outputDir f.path)

/-- The output directory is that of the manifest or lies below it. -/
def OutputBelowManifest (config : Config) : Prop :=
  ((Path.ofText config.outputDir).relativeTo? (Path.ofText config.manifestPath).parent).isSome

instance (config : Config) : Decidable (OutputBelowManifest config) :=
  inferInstanceAs (Decidable (_ = true))

theorem text_parent (h : (Path.ofText config.manifestPath).anchor = .here) :
    (Path.ofText config.manifestPath).parent.text
      = (⟨.here, (Path.ofText config.manifestPath).parent.names⟩ : Path).text := by
  rw [← h]
  rfl

theorem isName_of_mem_parent (config : Config) :
    ∀ n ∈ (Path.ofText config.manifestPath).parent.names, Path.IsName n := by
  intro n hn
  exact Path.isName_of_mem_namesOf (List.dropLast_subset _ hn)

theorem head?_importRoot (config : Config) (t : Text) :
    (config.manifestImportRoot ++ t).head? ≠ some '/' := by
  rw [Config.manifestImportRoot, List.append_assoc]
  exact fun h => by cases h

theorem importPath_concat (config : Config) (h : f.path = filePath g) (count : Nat) :
    ∃ stem, (describe config f count).importPath = config.manifestImportRoot ++ (stem ++ ['e']) := by
  obtain ⟨stem, hstem⟩ := filePath_concat g
  refine ⟨'/' :: stem, ?_⟩
  have himport : (describe config f count).importPath ++ ".ts".toList
      = config.manifestImportRoot ++ '/' :: f.path := importPath_describe h count
  rw [h, hstem] at himport
  exact List.append_cancel_right (himport.trans (by simp))

/-- The extension of the file stays with the last name of the import path. -/
theorem exportedFile_describe (h : f.path = filePath g)
    (hmanifest : (Path.ofText config.manifestPath).anchor = .here) (count : Nat) :
    exportedFile config (describe config f count) =
      Path.normalize (Path.under (Path.ofText config.manifestPath).parent.text
        (config.manifestImportRoot ++ '/' :: f.path)) := by
  obtain ⟨stem, hstem⟩ := importPath_concat config h count
  have hbase : (Path.ofText config.manifestPath).parent.text.head? ≠ some '/' := by
    rw [text_parent hmanifest]
    exact Path.head?_text (isName_of_mem_parent config)
  have hhead : (describe config f count).importPath.head? ≠ some '/' := by
    rw [hstem]
    exact head?_importRoot config _
  have hne : (describe config f count).importPath ≠ [] := by
    rw [hstem]
    simp
  have hlast : (Path.under (Path.ofText config.manifestPath).parent.text
      (describe config f count).importPath).getLast? = some 'e' := by
    rw [hstem, ← List.append_assoc, ← Path.under_append, List.getLast?_concat]
    rw [Config.manifestImportRoot]
    simp
  rw [exportedFile, Path.normalize_append hlast (by decide) (by decide) (Path.head?_under hbase hhead)
    (by decide), Path.under_append hne, importPath_describe h]

/-- The import path leads from the manifest's directory through the import root's names. -/
theorem namesOf_exported (hmanifest : (Path.ofText config.manifestPath).anchor = .here) (t : Text) :
    Path.namesOf (Path.under (Path.ofText config.manifestPath).parent.text
        (config.manifestImportRoot ++ '/' :: t))
      = (Path.ofText config.manifestPath).parent.names
        ++ (Path.namesOf config.manifestImportRoot ++ Path.namesOf t) := by
  rw [Path.namesOf_under _ (head?_importRoot config _), Path.namesOf_append_cons, text_parent hmanifest,
    Path.namesOf_text (isName_of_mem_parent config)]

theorem namesOf_importRoot {names : List Text}
    (h : ((Path.ofText config.outputDir).relativeTo? (Path.ofText config.manifestPath).parent).getD
      (Path.ofText config.outputDir) = ⟨.here, names⟩) (hnames : ∀ n ∈ names, Path.IsName n) :
    Path.namesOf config.manifestImportRoot = names := by
  have hroot : config.manifestImportRoot = ['.'] ++ '/' :: (⟨.here, names⟩ : Path).text := by
    rw [Config.manifestImportRoot, h]
    rfl
  rw [hroot, Path.namesOf_append_cons, Path.namesOf_text hnames]
  rfl

/-- Both ways lead through the same normal names exactly if the import root goes on from the manifest's
directory. -/
theorem normalNames_exported_iff (houtput : (Path.ofText config.outputDir).anchor = .here)
    (hmanifest : (Path.ofText config.manifestPath).anchor = .here)
    (hdown : ∀ n ∈ (Path.ofText config.manifestPath).parent.names, n ≠ ['.', '.'])
    {names : List Text} (hnames : ∀ n ∈ names, Path.IsName n) :
    Path.normalNames false ((Path.ofText config.manifestPath).parent.names
        ++ (Path.namesOf config.manifestImportRoot ++ names))
      = Path.normalNames false (Path.namesOf config.outputDir ++ names) ↔
      OutputBelowManifest config := by
  have hoffset : ∀ n ∈ Path.namesOf config.outputDir, Path.IsName n :=
    fun n hn => Path.isName_of_mem_namesOf hn
  have houtputPath : Path.ofText config.outputDir = ⟨.here, Path.namesOf config.outputDir⟩ := by
    rw [← houtput]
    rfl
  cases hbelow : (Path.ofText config.outputDir).relativeTo? (Path.ofText config.manifestPath).parent with
  | some below =>
    obtain ⟨rest, hrest, rfl⟩ := Path.relativeTo?_eq_some hbelow
    have hsplit : Path.namesOf config.outputDir = (Path.ofText config.manifestPath).parent.names ++ rest :=
      congrArg Path.names hrest
    have hroot : Path.namesOf config.manifestImportRoot = rest := by
      apply namesOf_importRoot
      · rw [hbelow, Option.getD_some]
      · intro n hn
        exact hoffset n (hsplit ▸ List.mem_append_right _ hn)
    have hholds : OutputBelowManifest config := by
      rw [OutputBelowManifest, hbelow]
      rfl
    rw [hroot, hsplit, List.append_assoc]
    exact iff_of_true rfl hholds
  | none =>
    have hroot : Path.namesOf config.manifestImportRoot = Path.namesOf config.outputDir := by
      apply namesOf_importRoot _ hoffset
      rw [hbelow, Option.getD_none, houtputPath]
    have hfails : ¬OutputBelowManifest config := by
      rw [OutputBelowManifest, hbelow]
      simp
    rw [hroot]
    refine iff_of_false (fun heq => hfails ?_) hfails
    have hnil : (Path.ofText config.manifestPath).parent.names = [] := by
      apply Path.eq_nil_of_normalNames_append (isName_of_mem_parent config) hdown _ heq
      intro n hn
      exact (List.mem_append.1 hn).elim (hoffset n) (hnames n)
    -- Below a manifest at the root of the workspace lies every output directory.
    have hparent : (Path.ofText config.manifestPath).parent = ⟨.here, []⟩ := by
      rw [← hmanifest, ← hnil]
      rfl
    rw [OutputBelowManifest, hparent, houtputPath]
    rfl

/-- The manifest points at the written file of a client exactly if the output directory lies in the
directory of the manifest: no import path leads up, and one that would have to is taken from the root
of the workspace. -/
theorem exportedFile_eq_iff (houtput : (Path.ofText config.outputDir).anchor = .here)
    (hmanifest : (Path.ofText config.manifestPath).anchor = .here)
    (hdown : ∀ n ∈ (Path.ofText config.manifestPath).parent.names, n ≠ ['.', '.'])
    (h : f.path = filePath g) (count : Nat) :
    exportedFile config (describe config f count) = writtenFile config f ↔
      OutputBelowManifest config ∧ (Path.ofText f.path).anchor = .here := by
  have hexported : (Path.under (Path.ofText config.manifestPath).parent.text
      (config.manifestImportRoot ++ '/' :: f.path)).head? ≠ some '/' := by
    apply Path.head?_under
    · rw [text_parent hmanifest]
      exact Path.head?_text (isName_of_mem_parent config)
    · exact head?_importRoot config _
  have hplace : (Path.ofText f.path).anchor = .here ↔ f.path.head? ≠ some '/' :=
    Path.anchor_eq_here_iff
  rw [exportedFile_describe h hmanifest, writtenFile, hplace]
  by_cases hhead : f.path.head? = some '/'
  · -- Such a path is written as it stands, and no export leads to the root.
    have hunder : Path.under config.outputDir f.path = f.path := by
      rw [Path.under, if_pos hhead]
    refine ⟨fun heq => ?_, fun hright => absurd hhead hright.2⟩
    rw [hunder] at heq
    exact absurd (heq ▸ Path.head?_normalize_rooted hhead) (Path.head?_normalize hexported)
  · have hwritten : (Path.under config.outputDir f.path).head? ≠ some '/' :=
      Path.head?_under (Path.anchor_eq_here_iff.1 houtput) hhead
    rw [Path.normalize_eq_iff hexported hwritten, namesOf_exported hmanifest,
      Path.namesOf_under _ hhead, and_iff_left hhead]
    exact normalNames_exported_iff houtput hmanifest hdown fun n hn => Path.isName_of_mem_namesOf hn

/-- Clients in a directory next to that of the manifest. -/
def besideManifest : Config :=
  { outputDir := "gen/api".toList, manifestPath := "manifest/index.ts".toList }

def teamGroup : EndpointGroup :=
  { name := "TeamController".toList, basePath := "teams".toList,
    sourceFile := "apps/web-server/src/team/team.controller.ts".toList, folder := "team".toList }

def teamFile : GeneratedFile :=
  { path := filePath teamGroup, contents := [], className := clientClassName teamGroup.name }

theorem exportedFile_ne_beside :
    (Path.ofText besideManifest.outputDir).anchor = .here ∧
      (Path.ofText besideManifest.manifestPath).anchor = .here ∧
      (∀ n ∈ (Path.ofText besideManifest.manifestPath).parent.names, n ≠ ['.', '.']) ∧
      teamFile.path = filePath teamGroup ∧
      exportedFile besideManifest (describe besideManifest teamFile 1)
        ≠ writtenFile besideManifest teamFile := by
  have hdown : ∀ n ∈ (Path.ofText besideManifest.manifestPath).parent.names, n ≠ ['.', '.'] := by decide
  refine ⟨by decide, by decide, hdown, rfl, fun heq => ?_⟩
  have hbelow := (exportedFile_eq_iff (g := teamGroup) (by decide) (by decide) hdown rfl 1).1 heq
  exact absurd hbelow.1 (by decide)

example : OutputBelowManifest {} := by decide

end Client

end NestClient
