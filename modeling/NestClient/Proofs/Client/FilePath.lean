import NestClient.Client.Source
import NestClient.Extract.Controller
import NestClient.Proofs.Disk.Tree

/-! The path of a client's file below the output directory.

* `slash_mem_kebabCase`: the file's name brings in no slash that the class name does not hold.
* `controllerFolder_eq`, `ofText_filePath`: the path consists of names of the controller's folder and
  of the file's name, each of which an entry can have. So it never leads out of the output directory. -/

namespace NestClient

/-! ## Lower case -/

theorem ofNat_ne_slash {n : Nat} (h : 48 ≤ n) : Char.ofNat n ≠ '/' := by
  intro heq
  by_cases hvalid : n.isValidChar
  · rw [Char.ofNat, dif_pos hvalid] at heq
    have hn : n = 47 := congrArg Char.toNat heq
    omega
  · rw [Char.ofNat, dif_neg hvalid] at heq
    exact absurd heq (by decide)

theorem toLower_ne_slash {c : Char} (h : c ≠ '/') : c.toLower ≠ '/' := by
  unfold Char.toLower
  split
  next hupper =>
    intro heq
    have hnat : (c.val + 32).toNat = 47 := congrArg Char.toNat heq
    have hlow : 65 ≤ c.val.toNat := UInt32.le_iff_toNat_le.1 hupper.1
    have hhigh : c.val.toNat ≤ 90 := UInt32.le_iff_toNat_le.1 hupper.2
    have hsmall : (32 : UInt32).toNat = 32 := rfl
    rw [UInt32.toNat_add, hsmall, Nat.mod_eq_of_lt (by omega)] at hnat
    omega
  next => exact h

/-- No run of the lower case mapping leads as far down as the slash. -/
theorem le_lower_apply {n : Nat} (h : 128 ≤ n) : 48 ≤ CaseRun.apply lowerRuns n := by
  have hruns : ∀ r ∈ lowerRuns, 48 ≤ (r.first : Int) + r.shift := by decide +kernel
  unfold CaseRun.apply
  split
  next r hfound =>
    have hr := hruns r (List.mem_of_find?_eq_some hfound)
    have hrange := List.find?_some hfound
    simp only [Bool.and_eq_true, decide_eq_true_eq] at hrange
    omega
  next => omega

theorem slash_mem_lowerChar {c : Char} (h : '/' ∈ lowerChar c) : c = '/' := by
  unfold lowerChar at h
  split at h
  · exact Classical.byContradiction fun hc => toLower_ne_slash hc (List.mem_singleton.1 h).symm
  · split at h
    · exact absurd h (by decide)
    · next hbig _ =>
      exact absurd (List.mem_singleton.1 h).symm (ofNat_ne_slash (le_lower_apply (by omega)))

namespace Text

theorem slash_mem_lowerAfter {before t : Text} (h : '/' ∈ lowerAfter before t) : '/' ∈ t := by
  induction t generalizing before with
  | nil => exact h
  | cons c rest ih =>
    rw [lowerAfter] at h
    rcases List.mem_append.1 h with h | h
    · split at h
      · split at h <;> exact absurd h (by decide)
      · rw [slash_mem_lowerChar h]
        exact List.mem_cons_self
    · exact List.mem_cons_of_mem _ (ih h)

theorem mem_markHumps {mark b : Char} {t : Text} (h : b ∈ markHumps mark t) : b = mark ∨ b ∈ t := by
  induction t with
  | nil => exact .inr h
  | cons a rest ih =>
    rw [markHumps] at h
    have hcases : b = a ∨ b = mark ∨ b ∈ markHumps mark rest := by
      split at h
      · simpa using h
      · rcases List.mem_cons.1 h with h | h
        · exact .inl h
        · exact .inr (.inr h)
    rcases hcases with rfl | rfl | h
    · exact .inr List.mem_cons_self
    · exact .inl rfl
    · exact (ih h).imp_right (List.mem_cons_of_mem _)

end Text

/-! ## Names of files -/

theorem mem_hyphenate {b : Char} {t : Text} (h : b ∈ hyphenate t) : b = '-' ∨ b ∈ t := by
  induction t with
  | nil => exact .inr h
  | cons c rest ih =>
    rw [hyphenate] at h
    have hcases : b = '-' ∨ b = c ∨ b ∈ hyphenate rest := by
      split at h
      · split at h
        · exact .inr (.inr h)
        · exact (List.mem_cons.1 h).imp_right .inr
      · exact .inr (List.mem_cons.1 h)
    rcases hcases with h | rfl | h
    · exact .inl h
    · exact .inr List.mem_cons_self
    · exact (ih h).imp_right (List.mem_cons_of_mem _)

theorem slash_mem_kebabCase {name : Text} (h : '/' ∈ kebabCase name) : '/' ∈ name := by
  have hhyphen := Text.slash_mem_lowerAfter h
  have hhump := (mem_hyphenate hhyphen).resolve_left (by decide)
  exact (Text.mem_markHumps hhump).resolve_left (by decide)

theorem clientClassName_eq (controller : Text) :
    ∃ stem, clientClassName controller = "Api".toList ++ stem ++ "Service".toList ∧
      ∀ c ∈ stem, c ∈ controller := by
  refine ⟨_, rfl, fun c hc => ?_⟩
  split at hc
  next stem hdrop =>
    split at hc
    · exact hc
    · rw [Text.dropTail?_eq_some_iff] at hdrop
      rw [hdrop]
      exact List.mem_append_left _ hc
  next => exact hc

/-- Apart from the letters around it, the name of a client is out of the controller's. -/
theorem mem_of_mem_clientClassName {controller : Text} {c : Char} (hc : c ∉ "ApiService".toList)
    (h : c ∈ clientClassName controller) : c ∈ controller := by
  obtain ⟨stem, hname, hstem⟩ := clientClassName_eq controller
  have haround : c ∉ "Api".toList ++ "Service".toList := hc
  rw [List.mem_append, not_or] at haround
  rw [hname, List.mem_append, List.mem_append] at h
  exact hstem c ((h.resolve_right haround.2).resolve_left haround.1)

theorem isEntryName_ts {stem : Text} (h : '/' ∉ stem) : Disk.IsEntryName (stem ++ ".ts".toList) := by
  have hlength : 3 ≤ (stem ++ ".ts".toList).length := by
    rw [List.length_append]
    exact Nat.le_add_left 3 _
  refine ⟨⟨?_, ?_, ?_⟩, ?_⟩
  · intro heq
    rw [heq] at hlength
    exact absurd hlength (by decide)
  · intro heq
    rw [heq] at hlength
    exact absurd hlength (by decide)
  · intro hmem
    rcases List.mem_append.1 hmem with hmem | hmem
    · exact h hmem
    · exact absurd hmem (by decide)
  · intro heq
    rw [heq] at hlength
    exact absurd hlength (by decide)

theorem isEntryName_clientFileName {name : Text} (h : '/' ∉ name) :
    Disk.IsEntryName (clientFileName name) := by
  refine isEntryName_ts fun hmem => ?_
  split at hmem
  next before hdrop =>
    rw [Text.dropTail?_eq_some_iff] at hdrop
    rcases List.mem_append.1 hmem with hmem | hmem
    · exact h (slash_mem_kebabCase (hdrop ▸ List.mem_append_left _ hmem))
    · exact absurd hmem (by decide)
  next => exact h (slash_mem_kebabCase hmem)

/-! ## Folders -/

theorem ofText_text {names : List Text} (h : ∀ n ∈ names, Path.IsName n) :
    Path.ofText (⟨.here, names⟩ : Path).text = ⟨.here, names⟩ := by
  by_cases hne : names = []
  · rw [hne]
    rfl
  · have htext : (⟨.here, names⟩ : Path).text = Text.join ['/'] names := by
      simp [Path.text, Anchor.text, hne]
    rw [htext, Path.ofText_join h]

/-- The folder of a controller consists of names of the path of its file. -/
theorem controllerFolder_eq {names : List Text} (h : ∀ n ∈ names, Path.IsName n) (config : Config) :
    ∃ kept, (∀ n ∈ kept, n ∈ names) ∧
      controllerFolder (⟨.here, names⟩ : Path).text config = Text.join ['/'] kept := by
  have hbelow : ∃ sub, (∀ n ∈ sub, n ∈ names) ∧
      (((⟨.here, names.dropLast⟩ : Path).relativeTo? (.ofText config.controllersRoot)).getD
        ⟨.here, names.dropLast⟩) = ⟨.here, sub⟩ := by
    cases hrel : (⟨.here, names.dropLast⟩ : Path).relativeTo? (.ofText config.controllersRoot) with
    | none => exact ⟨names.dropLast, fun n hn => List.dropLast_subset names hn, rfl⟩
    | some below =>
      unfold Path.relativeTo? at hrel
      split at hrel
      · obtain ⟨sub, hsub, rfl⟩ := Option.map_eq_some_iff.1 hrel
        rw [List.isPrefixOf?_eq_some_iff_append_eq] at hsub
        refine ⟨sub, fun n hn => List.dropLast_subset names ?_, rfl⟩
        dsimp only at hsub
        rw [← hsub]
        exact List.mem_append_right _ hn
      · next hnot => exact absurd rfl hnot
      · next hbase _ =>
        split at hrel
        · next heq => exact absurd heq hbase
        · simp at hrel
  obtain ⟨sub, hsub, hbelow⟩ := hbelow
  refine ⟨sub.filter fun part => !config.skippedFolderSegments.contains part,
    fun n hn => hsub n (List.mem_filter.1 hn).1, ?_⟩
  unfold controllerFolder
  rw [ofText_text h]
  dsimp only [Path.parent]
  rw [hbelow]
  rfl

namespace Client

theorem ofText_filePath {g : EndpointGroup} {names : List Text} (hname : '/' ∉ g.name)
    (hfolder : g.folder = Text.join ['/'] names) (hnames : ∀ n ∈ names, Path.IsName n) :
    Path.ofText (filePath g) = ⟨.here, names ++ [clientFileName (clientClassName g.name)]⟩ := by
  have hlast := isEntryName_clientFileName fun h => hname (mem_of_mem_clientClassName (by decide) h)
  have hall : ∀ n ∈ names ++ [clientFileName (clientClassName g.name)], Path.IsName n := by
    intro n hn
    rcases List.mem_append.1 hn with hn | hn
    · exact hnames n hn
    · rw [List.mem_singleton.1 hn]
      exact hlast.toIsName
  have hpath : filePath g = Text.join ['/'] (names ++ [clientFileName (clientClassName g.name)]) := by
    unfold filePath
    dsimp only
    rw [hfolder]
    by_cases hne : names = []
    · rw [hne]
      simp [Text.join, List.intercalate]
    · rw [Text.join_concat hne, if_neg]
      rw [List.isEmpty_iff]
      intro hnil
      refine hne ?_
      have hread := Path.namesOf_join hnames
      rw [hnil] at hread
      exact hread.symm
  rw [hpath, Path.ofText_join hall]

end Client

end NestClient
