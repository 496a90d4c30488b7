import Mathlib.Data.List.Nodup
import Mathlib.Data.Prod.Lex
import NestClient.Client.Manifest
import NestClient.Proofs.Client.FilePath
import NestClient.Proofs.Text.Sort

/-! What the manifest exports.

* `filter_manifestLines`: its lines that export something are those of `manifestExports`.
* `count_exported`: a client's class name is exported once for each client of this name.
* `eq_of_mem_manifestExports`: if the clients have different names, each is exported from its own module.
* `renderManifest_sorted`: the clients are exported in the order of their names, one line for each, and
  clients of different names always in the same order.
* `importPath_describe`: an export names the file of its client. -/

namespace NestClient.Client

/-- Names that the manifest exports from a module. -/
structure Export where
  names : List Text
  module : Text

namespace Export

/-- The line of the export: its names in braces, and its module as a literal. -/
def line (x : Export) : Text :=
  "export \x7b ".toList ++ Text.join ", ".toList x.names ++ " \x7d from ".toList
    ++ stringLiteral x.module ++ ";".toList

/-- The file that a manifest exports from: modules are named from its directory, without the
extension. -/
def file (manifest : Path) (x : Export) : Path :=
  manifest.parent.append (.ofText (x.module ++ ".ts".toList))

end Export

def isExport (line : Text) : Bool := "export ".toList.isPrefixOf line

/-- The lines of the text that export something are those of the exports. They are lines of the text as it
reads: none of them has a line feed if the exports have none. -/
def Exports (text : Text) (exports : List Export) : Prop :=
  ∃ lines : List Text, text = lines.flatMap (· ++ ['\n']) ∧
    lines.filter isExport = exports.map Export.line ∧
    ((∀ x ∈ exports, '\n' ∉ x.module ∧ ∀ n ∈ x.names, '\n' ∉ n) → ∀ line ∈ lines, '\n' ∉ line)

/-- The exports of the services that all clients share. -/
def serviceExports (config : Config) : List Export :=
  [⟨["BaseApiService".toList], "./".toList ++ config.baseServiceModule⟩,
    ⟨["AppConfigService".toList, "ApiConfig".toList], "./".toList ++ config.configServiceModule⟩]

def clientExport (c : ClientDescriptor) : Export := ⟨[c.className], c.importPath⟩

def manifestExports (config : Config) (clients : List ClientDescriptor) : List Export :=
  serviceExports config ++ (Text.sortBy exportsBefore clients).map clientExport

variable {config : Config} {clients : List ClientDescriptor}

theorem isExport_line (x : Export) : isExport x.line = true := rfl

theorem line_feed_not_mem_line {x : Export} (hmodule : '\n' ∉ x.module)
    (hnames : ∀ n ∈ x.names, '\n' ∉ n) : '\n' ∉ x.line := by
  have hjoin : '\n' ∉ Text.join ", ".toList x.names := Text.not_mem_join (by decide) hnames
  have hliteral : '\n' ∉ stringLiteral x.module := by
    intro hmem
    rw [stringLiteral, List.mem_append, List.mem_cons, List.mem_flatMap] at hmem
    rcases hmem with (hquote | ⟨c, hc, hescaped⟩) | hquote
    · exact absurd hquote (by decide)
    · unfold escapeQuoted at hescaped
      split at hescaped
      · have hne : c ≠ '\n' := ne_of_mem_of_not_mem hc hmodule
        simp [hne.symm] at hescaped
      · exact hmodule (List.mem_singleton.1 hescaped ▸ hc)
    · exact absurd hquote (by decide)
  unfold Export.line
  simp only [List.mem_append, not_or]
  exact ⟨⟨⟨⟨by decide, hjoin⟩, by decide⟩, hliteral⟩, by decide⟩

theorem isExport_of_mem {exports : List Export} {line : Text} (hline : line ∈ exports.map Export.line) :
    isExport line = true := by
  obtain ⟨x, -, rfl⟩ := List.mem_map.1 hline
  exact isExport_line x

/-- Besides the exports the manifest has two comments and an empty line. -/
theorem manifestLines_eq (config : Config) (clients : List ClientDescriptor) :
    manifestLines config clients
      = "// Export services".toList :: (serviceExports config).map Export.line
        ++ [] :: "// Export auto-generated services".toList
          :: ((Text.sortBy exportsBefore clients).map clientExport).map Export.line := by
  rw [List.map_map]
  rfl

theorem filter_manifestLines :
    (manifestLines config clients).filter isExport
      = (manifestExports config clients).map Export.line := by
  have hself (exports : List Export) :
      (exports.map Export.line).filter isExport = exports.map Export.line :=
    List.filter_eq_self.2 fun _ => isExport_of_mem
  rw [manifestLines_eq, List.filter_append, List.filter_cons_of_neg (by decide),
    List.filter_cons_of_neg (by decide), List.filter_cons_of_neg (by decide), hself, hself,
    manifestExports, List.map_append]

theorem exports_renderManifest :
    Exports (renderManifest config clients) (manifestExports config clients) := by
  refine ⟨manifestLines config clients, rfl, filter_manifestLines, fun hplain line hline => ?_⟩
  by_cases hexport : isExport line
  · have hmem : line ∈ (manifestLines config clients).filter isExport := List.mem_filter.2 ⟨hline, hexport⟩
    rw [filter_manifestLines] at hmem
    obtain ⟨x, hx, rfl⟩ := List.mem_map.1 hmem
    exact line_feed_not_mem_line (hplain x hx).1 (hplain x hx).2
  · rw [manifestLines_eq, List.mem_append, List.mem_cons, List.mem_cons, List.mem_cons] at hline
    rcases hline with (rfl | hservice) | rfl | rfl | hclient
    · decide
    · exact absurd (isExport_of_mem hservice) hexport
    · exact List.not_mem_nil
    · decide
    · exact absurd (isExport_of_mem hclient) hexport

/-! ## Names of clients -/

theorem clientClassName_ne (controller : Text) :
    clientClassName controller ≠ "BaseApiService".toList ∧
      clientClassName controller ≠ "AppConfigService".toList ∧
      clientClassName controller ≠ "ApiConfig".toList := by
  obtain ⟨stem, hname, -⟩ := clientClassName_eq controller
  rw [hname]
  refine ⟨?_, ?_, ?_⟩
  · intro h
    cases congrArg List.head? h
  · intro h
    cases congrArg (fun t => (t.drop 2).head?) h
  · intro h
    have hlength := congrArg List.length h
    rw [List.length_append, List.length_append] at hlength
    have htail : "Service".toList.length = 7 := rfl
    have hlead : "Api".toList.length = 3 := rfl
    have hwhole : "ApiConfig".toList.length = 9 := rfl
    omega

theorem count_exported (controller : Text) :
    ((manifestExports config clients).flatMap Export.names).count (clientClassName controller)
      = (clients.map (·.className)).count (clientClassName controller) := by
  obtain ⟨hbase, happ, hapi⟩ := clientClassName_ne controller
  have hnames : (manifestExports config clients).flatMap Export.names
      = "BaseApiService".toList :: "AppConfigService".toList :: "ApiConfig".toList
        :: (Text.sortBy exportsBefore clients).map (·.className) := by
    rw [manifestExports, List.flatMap_append, List.flatMap_map, List.map_eq_flatMap]
    rfl
  rw [hnames, List.count_cons_of_ne hbase.symm, List.count_cons_of_ne happ.symm,
    List.count_cons_of_ne hapi.symm]
  exact ((Text.sortBy_perm clients).map _).count_eq _

theorem mem_manifestExports {c : ClientDescriptor} (hc : c ∈ clients) :
    clientExport c ∈ manifestExports config clients :=
  List.mem_append_right _ (List.mem_map_of_mem (Text.mem_sortBy.2 hc))

theorem eq_of_mem_manifestExports (hclients : (clients.map (·.className)).Nodup) {c : ClientDescriptor}
    (hc : c ∈ clients) {controller : Text} (hname : c.className = clientClassName controller)
    {x : Export} (hx : x ∈ manifestExports config clients) (hmem : c.className ∈ x.names) :
    x = clientExport c := by
  obtain ⟨hbase, happ, hapi⟩ := clientClassName_ne controller
  rw [← hname] at hbase happ hapi
  rcases List.mem_append.1 hx with hservice | hclient
  · rcases List.mem_cons.1 hservice with rfl | hservice
    · exact absurd (List.mem_singleton.1 hmem) hbase
    · obtain rfl := List.mem_singleton.1 hservice
      rcases List.mem_cons.1 hmem with h | hmem
      · exact absurd h happ
      · exact absurd (List.mem_singleton.1 hmem) hapi
  · obtain ⟨c', hc', rfl⟩ := List.mem_map.1 hclient
    rw [Text.mem_sortBy] at hc'
    rw [List.inj_on_of_nodup_map hclients hc hc' (List.mem_singleton.1 hmem)]

/-! ## The order of the exports -/

/-- What a client goes by in the order of exports: its class name in lower case, and for those that
share it the class name itself. -/
def exportKey (c : ClientDescriptor) : Text ×ₗ Text := toLex (Text.lower c.className, c.className)

theorem exportsBefore_iff {a b : ClientDescriptor} :
    exportsBefore a b = true ↔ exportKey a ≤ exportKey b := by
  unfold exportsBefore exportKey
  rw [Prod.Lex.toLex_le_toLex]
  dsimp only
  split
  next heq => simp [heq, Text.le_iff]
  next hne =>
    rw [Text.le_iff, or_iff_left fun h => hne h.1]
    exact ⟨fun h => lt_of_le_of_ne h hne, le_of_lt⟩

theorem exportsBefore_trans (a b c : ClientDescriptor) (hab : exportsBefore a b = true)
    (hbc : exportsBefore b c = true) : exportsBefore a c = true := by
  rw [exportsBefore_iff] at hab hbc ⊢
  exact le_trans hab hbc

theorem exportsBefore_total (a b : ClientDescriptor) :
    (exportsBefore a b || exportsBefore b a) = true := by
  rw [Bool.or_eq_true, exportsBefore_iff, exportsBefore_iff]
  exact le_total _ _

/-- Lower case forgets the difference of names, but the names themselves come second. -/
theorem className_eq_of_exportsBefore {a b : ClientDescriptor} (hab : exportsBefore a b = true)
    (hba : exportsBefore b a = true) : a.className = b.className := by
  rw [exportsBefore_iff] at hab hba
  have hkeys : exportKey a = exportKey b := le_antisymm hab hba
  exact congrArg Prod.snd (toLex.injective hkeys)

/-- Different names have different places, so where the clients stand does not depend on the order in
which they come. -/
theorem sortBy_exportsBefore_perm (hnames : (clients.map (·.className)).Nodup)
    {others : List ClientDescriptor} (h : others.Perm clients) :
    Text.sortBy exportsBefore others = Text.sortBy exportsBefore clients := by
  refine (Text.sortBy_eq_of_perm exportsBefore_trans exportsBefore_total ?_ h.symm).symm
  intro a ha b hb hab hba
  exact List.inj_on_of_nodup_map hnames ha hb (className_eq_of_exportsBefore hab hba)

/-- The manifest says in its lines that it exports the services and then, in the order of lower case class
names and then of class names, each client once; it exports nothing else. Clients of different names give
the same text in whatever order they come. -/
theorem renderManifest_sorted (config : Config) (clients : List ClientDescriptor) :
    (∃ sorted : List ClientDescriptor, sorted.Perm clients ∧
      sorted.Pairwise (fun a b => exportKey a ≤ exportKey b) ∧
      renderManifest config clients
        = ("// Export services".toList :: (serviceExports config).map Export.line
          ++ [] :: "// Export auto-generated services".toList
            :: (sorted.map clientExport).map Export.line).flatMap (· ++ ['\n']) ∧
      Exports (renderManifest config clients) (serviceExports config ++ sorted.map clientExport)) ∧
    ((clients.map (·.className)).Nodup → ∀ others : List ClientDescriptor, others.Perm clients →
      renderManifest config others = renderManifest config clients) := by
  have hsorted : (Text.sortBy exportsBefore clients).Pairwise fun a b => exportsBefore a b :=
    Text.pairwise_sortBy exportsBefore_trans exportsBefore_total clients
  refine ⟨⟨_, Text.sortBy_perm clients, hsorted.imp exportsBefore_iff.1, ?_, exports_renderManifest⟩, ?_⟩
  · rw [renderManifest, manifestLines_eq, unlines]
  · intro hnames others h
    rw [renderManifest, manifestLines, sortBy_exportsBefore_perm hnames h]
    rfl

/-- Two names that differ in case only. -/
theorem renderManifest_sorted_case :
    let upper : ClientDescriptor := { className := "ApiFOOService".toList, importPath := "./a".toList }
    let lower : ClientDescriptor := { className := "ApiFooService".toList, importPath := "./b".toList }
    ([upper, lower].map (·.className)).Nodup ∧
      renderManifest {} [lower, upper] = renderManifest {} [upper, lower] := by
  intro upper lower
  have hnames : ([upper, lower].map (·.className)).Nodup := by decide
  exact ⟨hnames, (renderManifest_sorted {} [upper, lower]).2 hnames _ (.swap _ _ _)⟩

/-! ## Files of clients -/

theorem filePath_eq (g : EndpointGroup) : ∃ stem, filePath g = stem ++ ".ts".toList := by
  unfold filePath clientFileName
  dsimp only
  split
  · exact ⟨_, rfl⟩
  · exact ⟨_, by rw [← List.cons_append, ← List.append_assoc]⟩

/-- An export names the file of its client, without the extension. -/
theorem importPath_describe {f : GeneratedFile} {g : EndpointGroup} (h : f.path = filePath g)
    (count : Nat) : (describe config f count).importPath ++ ".ts".toList
      = config.manifestImportRoot ++ '/' :: f.path := by
  obtain ⟨stem, hstem⟩ := filePath_eq g
  have hdrop : Text.dropTail? ".ts".toList f.path = some stem :=
    Text.dropTail?_eq_some_iff.2 (h.trans hstem)
  rw [describe]
  dsimp only
  rw [hdrop, Option.getD_some, h, hstem, List.append_assoc, List.cons_append]

end NestClient.Client
