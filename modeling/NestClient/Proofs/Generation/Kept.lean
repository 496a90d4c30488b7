import NestClient.Proofs.Client.Manifest
import NestClient.Proofs.Generation.Produced

/-! Which clients of a run are lost.

* `file_describe`: the manifest exports a client from the client's file.
* `Clash`: two clients have one class name or one file.
* `Answers`: a run answers for each plan what its client is and where.
* `KeepsClients`: no client is lost, and the manifest exports each of them once, from its own file.
* `keepsClients_iff`: this is so unless two controllers clash, or the manifest is written over a
  client. -/

namespace NestClient

open Disk NestClient.Action

variable {d m e : Disk} {root : Path} {config : Config} {f : GeneratedFile}
  {c c' : EndpointGroup}

/-! ## Files of exports -/

/-- The output directory is that of the manifest or lies below it, and its path never leads up. -/
structure Config.Nested (config : Config) : Prop where
  named : (Path.ofText config.manifestPath).names ≠ []
  above : ((Path.ofText config.outputDir).relativeTo?
    (Path.ofText config.manifestPath).parent).isSome
  down : ∀ n ∈ (Path.ofText config.outputDir).names, n ≠ ['.', '.']

theorem Config.Nested.output (h : config.Nested) (hroot : ∀ n ∈ root.names, IsEntryName n) :
    ∀ n ∈ (config.outputPath root).names, n ≠ ['.', '.'] := by
  intro n hn
  unfold outputPath Path.append at hn
  split at hn
  · exact (List.mem_append.1 hn).elim (fun hn => (hroot n hn).ne_dots) (h.down n)
  · exact h.down n hn

theorem ofText_dot_slash (t : Text) : Path.ofText ('.' :: '/' :: t) = ⟨.here, Path.namesOf t⟩ := by
  have hnames := Path.namesOf_append_cons ['.'] t
  rw [List.singleton_append] at hnames
  rw [Path.ofText, hnames]
  rfl

/-- The module of a client leads on from the manifest's directory as the output directory does. -/
theorem exists_module_describe (hnested : config.Nested)
    (h : f.path = Client.filePath c) (count : Nat) :
    ∃ rest, Path.ofText config.outputDir = ⟨(Path.ofText config.manifestPath).anchor,
        (Path.ofText config.manifestPath).names.dropLast ++ rest⟩ ∧
      Path.ofText ((Client.describe config f count).importPath ++ ".ts".toList)
        = ⟨.here, rest ++ Path.namesOf f.path⟩ := by
  obtain ⟨below, hbelow⟩ := Option.isSome_iff_exists.1 hnested.above
  obtain ⟨rest, houtput, rfl⟩ := Path.relativeTo?_eq_some hbelow
  have hnames : ∀ n ∈ rest, Path.IsName n := by
    intro n hn
    have hmem : n ∈ (Path.ofText config.outputDir).names := by
      rw [houtput]
      exact List.mem_append_right _ hn
    exact Path.isName_of_mem_namesOf hmem
  have hrest : Path.namesOf (⟨.here, rest⟩ : Path).text = rest :=
    congrArg Path.names (ofText_text hnames)
  refine ⟨rest, houtput, ?_⟩
  have hlead : Path.ofText ("./".toList ++ ((⟨.here, rest⟩ : Path).text ++ '/' :: f.path))
      = ⟨.here, Path.namesOf ((⟨.here, rest⟩ : Path).text ++ '/' :: f.path)⟩ := ofText_dot_slash _
  rw [Client.importPath_describe h, Config.manifestImportRoot, hbelow, Option.getD_some,
    List.append_assoc, hlead, Path.namesOf_append_cons, hrest]

/-- What the manifest exports as a client's module is the client's file. -/
theorem file_describe (hnested : config.Nested) (hf : f.Placed) (h : f.path = Client.filePath c)
    (names : List Text) (count : Nat) :
    (⟨names, (Client.describe config f count).importPath⟩ : Client.Export).file
      (config.manifestFile root) = f.place (config.outputPath root) := by
  obtain ⟨inner, -, -, hpath⟩ := hf
  obtain ⟨rest, houtput, hmodule⟩ := exists_module_describe hnested h count
  have hinner : Path.namesOf f.path = inner := congrArg Path.names hpath
  rw [Client.Export.file, hmodule, hinner, GeneratedFile.place, hpath, Path.append_here,
    Path.append_here, Config.outputPath, houtput, Config.manifestFile]
  unfold Path.append Path.parent
  dsimp only
  split
  · rw [List.dropLast_append_of_ne_nil hnested.named]
    simp only [List.append_assoc]
  · simp only [List.append_assoc]

/-! ## Controllers that clash -/

/-- The clients of two controllers get in each other's way: their classes have one name, or their files
have one path. -/
def Clash (c c' : EndpointGroup) : Prop :=
  clientClassName c.name = clientClassName c'.name ∨
    c.folder = c'.folder ∧
      clientFileName (clientClassName c.name) = clientFileName (clientClassName c'.name)

instance (c c' : EndpointGroup) : Decidable (Clash c c') :=
  inferInstanceAs (Decidable (clientClassName c.name = clientClassName c'.name ∨
    c.folder = c'.folder ∧
      clientFileName (clientClassName c.name) = clientFileName (clientClassName c'.name)))

/-- No two plans clash. -/
def NoClash (plans : List Plan) : Prop :=
  plans.Pairwise fun plan other => ¬Clash plan.group other.group

instance (plans : List Plan) : Decidable (NoClash plans) := inferInstanceAs (Decidable (plans.Pairwise _))

namespace EndpointGroup.Placed

theorem ofText_filePath_eq_iff (hc : c.Placed) (hc' : c'.Placed) :
    Path.ofText (Client.filePath c) = Path.ofText (Client.filePath c') ↔ c.folder = c'.folder ∧
      clientFileName (clientClassName c.name) = clientFileName (clientClassName c'.name) := by
  obtain ⟨names, hnames, hfolder⟩ := hc.folder
  obtain ⟨names', hnames', hfolder'⟩ := hc'.folder
  constructor
  · intro h
    rw [Client.ofText_filePath hc.name hfolder fun n hn => (hnames n hn).toIsName,
      Client.ofText_filePath hc'.name hfolder' fun n hn => (hnames' n hn).toIsName] at h
    obtain ⟨hlead, hlast⟩ := List.append_inj' (congrArg Path.names h) (by
      rw [List.length_singleton, List.length_singleton])
    exact ⟨by rw [hfolder, hfolder', hlead], List.singleton_inj.1 hlast⟩
  · rintro ⟨hfolders, hfiles⟩
    unfold Client.filePath
    dsimp only
    rw [hfolders, hfiles]

end EndpointGroup.Placed

/-! ## What is kept -/

/-- What a run answers of a plan's client. -/
def Plan.described? (config : Config) (plan : Plan) : Option ClientDescriptor :=
  (plan.rendered? config).map (·.2)

/-- Where a run says that it has written a plan's client. -/
def Plan.written? (root : Path) (config : Config) (plan : Plan) : Option Text :=
  (((config.outputPath root).append (.ofText (Client.filePath plan.group))).relativeTo? root).map
    Path.text

/-- A run answers for each plan in turn what its client is and where. -/
structure Answers (root : Path) (config : Config) (plans : List Plan) (g : Generation) : Prop where
  clients : g.clients.map some = plans.map (Plan.described? config)
  written : g.written.map some = plans.map (Plan.written? root config)

/-- The manifest is not written over one of the clients. -/
def ManifestApart (root : Path) (config : Config) (plans : List Plan) (e : Disk) : Prop :=
  ∀ plan ∈ plans,
    (e.find? ((config.outputPath root).append (.ofText (Client.filePath plan.group)))).map (·.1)
      ≠ (e.find? (config.manifestFile root)).map (·.1)

instance (root : Path) (config : Config) (plans : List Plan) (e : Disk) :
    Decidable (ManifestApart root config plans e) := inferInstanceAs (Decidable (∀ _ ∈ _, _ ≠ _))

/-- The file at the path is that of a client, as it was rendered for its plan, with its class. -/
def HoldsClient (config : Config) (plans : List Plan) (e : Disk) (p : Path) (client : ClientDescriptor) :
    Prop :=
  ∃ plan ∈ plans, ∃ f l, Client.render config plan.group plan.endpoints = .ok f ∧
    client = Client.describe config f plan.endpoints.length ∧ Declares f.contents client.className ∧
      e.find? p = some (l, .file (Utf8.encode f.contents))

/-- After a run no client is lost: the paths of the files are distinct and so are the names of the
clients, and the manifest exports each of them once, from a file that holds it. -/
structure KeepsClients (root : Path) (config : Config) (plans : List Plan) (g : Generation) (e : Disk) :
    Prop where
  written : g.written.Nodup
  names : (g.clients.map (·.className)).Nodup
  manifest : ∃ l text, e.find? (config.manifestFile root) = some (l, .file (Utf8.encode text)) ∧
    Client.Exports text (Client.manifestExports config g.clients)
  once : ∀ client ∈ g.clients,
    ((Client.manifestExports config g.clients).flatMap (·.names)).count client.className = 1
  held : ∀ client ∈ g.clients, ∀ x ∈ Client.manifestExports config g.clients,
    client.className ∈ x.names →
      HoldsClient config plans e (x.file (config.manifestFile root)) client

namespace Produced

variable {plans : List Plan} {rendered : List (GeneratedFile × ClientDescriptor)} {g : Generation}
  {r : GeneratedFile × ClientDescriptor} (h : Produced root config plans rendered m g e)

include h

theorem answers : Answers root config plans g where
  clients := by
    rw [h.clients, List.map_map]
    refine map_rendered h.renders fun plan r hr => ?_
    rw [Plan.described?, hr]
    rfl
  written := by
    rw [← h.written]
    refine map_rendered h.renders fun plan r hr => ?_
    rw [GeneratedFile.place, (isClientOf_of_rendered hr).path, Plan.written?]

theorem noClash_iff (hroot : ∀ n ∈ root.names, IsEntryName n) :
    NoClash plans ↔ g.written.Nodup ∧ (g.clients.map (·.className)).Nodup := by
  rw [NoClash, h.nodup_written_iff hroot, h.paths_eq, h.names_eq, List.Nodup, List.Nodup,
    List.pairwise_map, List.pairwise_map, ← List.pairwise_and_iff]
  refine List.Pairwise.iff_of_mem fun hplan hother => ?_
  rw [Clash, not_or, ← (h.placed _ hplan).ofText_filePath_eq_iff (h.placed _ hother), and_comm]

/-- A client that is exported under its own name alone is exported from its own file. -/
theorem file_eq (hnested : config.Nested) {plan : Plan} (hr : r ∈ rendered)
    (hplan : plan.rendered? config = some r) :
    (Client.clientExport r.2).file (config.manifestFile root)
      = r.1.place (config.outputPath root) := by
  rw [(render_of_rendered hplan).2]
  exact file_describe hnested (h.placed_of_mem hr) (isClientOf_of_rendered hplan).path _ _

/-- The manifest's text is that of no client. -/
theorem manifestApart_of_keeps (hnested : config.Nested)
    (hkeeps : KeepsClients root config plans g e) : ManifestApart root config plans e := by
  intro plan hplan hsame
  obtain ⟨r, hr, hrendered⟩ := exists_rendered h.renders hplan
  have hclient : r.2 ∈ g.clients := h.clients ▸ List.mem_map_of_mem hr
  obtain ⟨_, -, f, l, hrender, -, -, hfind⟩ := hkeeps.held r.2 hclient _
    (Client.mem_manifestExports hclient) List.mem_cons_self
  obtain ⟨l', hmanifest, -⟩ := grows_writeText h.manifest
  rw [h.file_eq hnested hr hrendered, GeneratedFile.place,
    (isClientOf_of_rendered hrendered).path] at hfind
  rw [hfind, hmanifest] at hsame
  obtain rfl : l = l' := Option.some.inj hsame
  have hbytes := (get?_of_find?_file hfind).symm.trans (get?_of_find?_file hmanifest)
  have hencode := Entry.file.inj (Option.some.inj hbytes)
  -- one begins with an import, the other one with a comment
  obtain ⟨rest, hcontents⟩ := List.head?_eq_some_iff.1 (head?_of_render_ok hrender)
  rw [hcontents] at hencode
  cases congrArg List.head? hencode

theorem count_className (hnames : (g.clients.map (·.className)).Nodup) {client : ClientDescriptor}
    (hclient : client ∈ g.clients) :
    ((Client.manifestExports config g.clients).flatMap (·.names)).count client.className = 1 := by
  have hmem : client.className ∈ g.clients.map (·.className) := List.mem_map_of_mem hclient
  obtain ⟨plan, -, hname⟩ := List.mem_map.1 (h.names_eq ▸ hmem)
  rw [← hname, Client.count_exported, hname]
  exact List.count_eq_one_of_mem hnames hmem

/-- A client's file is left alone once the manifest is written somewhere else. -/
theorem holdsClient_place (hnested : config.Nested) (hroot : ∀ n ∈ root.names, IsEntryName n)
    (hwritten : g.written.Nodup) (hapart : ManifestApart root config plans e) {plan : Plan}
    (hplan : plan ∈ plans) (hr : r ∈ rendered) (hrendered : plan.rendered? config = some r) :
    HoldsClient config plans e (r.1.place (config.outputPath root)) r.2 := by
  obtain ⟨hrender, hdescribe⟩ := render_of_rendered hrendered
  have hclient := isClientOf_of_rendered hrendered
  have hname : r.2.className = r.1.className := by rw [hdescribe]; rfl
  have hpaths := (h.nodup_written_iff hroot).1 hwritten
  obtain ⟨l, hfind⟩ := h.find?_place (hnested.output hroot) hpaths hr
  obtain ⟨l', hmanifest, hgrows⟩ := grows_writeText h.manifest
  obtain ⟨x, hfinal, rfl | ⟨rfl, -⟩⟩ := find?_grows hfind hgrows
  · exact ⟨plan, hplan, r.1, l, hrender, hdescribe, hname ▸ hclient.declares, hfinal⟩
  · rw [GeneratedFile.place, hclient.path] at hfinal
    refine absurd ?_ (hapart plan hplan)
    rw [hfinal, hmanifest]
    rfl

theorem keepsClients_of_apart (hnested : config.Nested) (hroot : ∀ n ∈ root.names, IsEntryName n)
    (hwritten : g.written.Nodup) (hnames : (g.clients.map (·.className)).Nodup)
    (hapart : ManifestApart root config plans e) : KeepsClients root config plans g e := by
  obtain ⟨l, hmanifest, -⟩ := grows_writeText h.manifest
  refine ⟨hwritten, hnames, ⟨l, _, hmanifest, Client.exports_renderManifest⟩,
    fun client hclient => h.count_className hnames hclient, ?_⟩
  intro client hclient x hx hmem
  obtain ⟨r, hr, rfl⟩ := List.mem_map.1 (h.clients ▸ hclient)
  obtain ⟨plan, hplan, hrendered⟩ := exists_plan h.renders hr
  have hname : r.2.className = clientClassName plan.group.name := by
    rw [(render_of_rendered hrendered).2]
    exact (isClientOf_of_rendered hrendered).className
  rw [Client.eq_of_mem_manifestExports hnames hclient hname hx hmem, h.file_eq hnested hr hrendered]
  exact h.holdsClient_place hnested hroot hwritten hapart hplan hr hrendered

end Produced

/-- A run that succeeds answers for each of its plans. Files and classes are told apart unless two
controllers clash, and then no client is lost unless the manifest is written over it. -/
theorem keepsClients_iff (hroot : ∀ n ∈ root.names, IsEntryName n) (h : d.IsTree) {g : Generation}
    (hrun : ((generate root config).start d).1 = .ok g) :
    ∃ analysis, ((analyze root config).start d).1 = .ok analysis ∧
      Answers root config analysis.plans g ∧
      (g.written.Nodup ∧ (g.clients.map (·.className)).Nodup ↔ NoClash analysis.plans) ∧
      (config.Nested →
        let left := ((generate root config).start d).2.disk
        (KeepsClients root config analysis.plans g left ↔
          NoClash analysis.plans ∧ ManifestApart root config analysis.plans left)) := by
  have hstart : (generate root config).run.run ⟨d, []⟩
      = (.ok g, ((generate root config).start d).2) := Prod.ext hrun rfl
  obtain ⟨analysis, u, rendered, m, hanalyze, hproduced⟩ := exists_produced h hstart
  have hclash := hproduced.noClash_iff hroot
  refine ⟨analysis, congrArg Prod.fst hanalyze, hproduced.answers, hclash.symm, fun hnested => ?_⟩
  dsimp only
  rw [hclash]
  constructor
  · intro hkeeps
    exact ⟨⟨hkeeps.written, hkeeps.names⟩, hproduced.manifestApart_of_keeps hnested hkeeps⟩
  · rintro ⟨⟨hwritten, hnames⟩, hapart⟩
    exact hproduced.keepsClients_of_apart hnested hroot hwritten hnames hapart

/-! ## Two small workspaces -/

theorem mem_toOption_of_eq_ok {ε α : Type} {x : Except ε α} {a : α} (h : x = .ok a) :
    a ∈ x.toOption := by
  rw [h]
  rfl

/-- A controller with one endpoint. -/
def smallController (name : String) : Entry := .file (Utf8.encode
  ("@Controller('a')\nexport class ".toList ++ name.toList ++ " \x7b @Get() all() \x7b\x7d \x7d".toList))

def teamEntries : List (Location × Entry) := entriesAt [
  ("w", .directory), ("w/t.json", .file []), ("w/src", .directory),
  ("w/src/team.ts", smallController "TeamController"),
  ("w/src/user.ts", smallController "UserController")]

/-- The suffix of the first controller is what tells it from the second one. -/
def clashingEntries : List (Location × Entry) := entriesAt [
  ("w", .directory), ("w/t.json", .file []), ("w/src", .directory),
  ("w/src/team.ts", smallController "TeamController"),
  ("w/src/user.ts", smallController "Team")]

theorem keepsClients_iff_small :
    (∃ g analysis, ((generate smallRoot smallConfig).start ⟨teamEntries⟩).1 = .ok g ∧
      ((analyze smallRoot smallConfig).start ⟨teamEntries⟩).1 = .ok analysis ∧
      analysis.plans.length = 2 ∧ Answers smallRoot smallConfig analysis.plans g ∧
      KeepsClients smallRoot smallConfig analysis.plans g
        ((generate smallRoot smallConfig).start ⟨teamEntries⟩).2.disk) ∧
    ∃ g, ((generate smallRoot smallConfig).start ⟨clashingEntries⟩).1 = .ok g ∧
      ¬(g.written.Nodup ∧ (g.clients.map (·.className)).Nodup) := by
  have hroot : ∀ n ∈ smallRoot.names, IsEntryName n := by decide +kernel
  have hnested : smallConfig.Nested := ⟨by decide, by decide, by decide⟩
  constructor
  · have hrun : ((generate smallRoot smallConfig).start ⟨teamEntries⟩).1.isOk = true ∧
        ∀ analysis ∈ ((analyze smallRoot smallConfig).start ⟨teamEntries⟩).1.toOption,
          analysis.plans.length = 2 ∧ NoClash analysis.plans ∧
            ManifestApart smallRoot smallConfig analysis.plans
              ((generate smallRoot smallConfig).start ⟨teamEntries⟩).2.disk := by
      decide +kernel
    obtain ⟨g, hg⟩ := exists_of_isOk hrun.1
    obtain ⟨analysis, hanalysis, hanswers, -, hkeeps⟩ := keepsClients_iff hroot (by decide +kernel) hg
    obtain ⟨hlength, hapart⟩ := hrun.2 analysis (mem_toOption_of_eq_ok hanalysis)
    exact ⟨g, analysis, hg, hanalysis, hlength, hanswers, (hkeeps hnested).2 hapart⟩
  · have hrun : ((generate smallRoot smallConfig).start ⟨clashingEntries⟩).1.isOk = true ∧
        ∀ analysis ∈ ((analyze smallRoot smallConfig).start ⟨clashingEntries⟩).1.toOption,
          ¬NoClash analysis.plans := by
      decide +kernel
    obtain ⟨g, hg⟩ := exists_of_isOk hrun.1
    obtain ⟨analysis, hanalysis, -, hdistinct, -⟩ := keepsClients_iff hroot (by decide +kernel) hg
    exact ⟨g, hg, fun h => hrun.2 analysis (mem_toOption_of_eq_ok hanalysis) (hdistinct.1 h)⟩

end NestClient
