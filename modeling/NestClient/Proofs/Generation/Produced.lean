import Mathlib.Data.List.Nodup
import Mathlib.Data.Option.Basic
import NestClient.Proofs.Generation.Ready
import NestClient.Proofs.Generation.Rendered
import NestClient.Proofs.Generation.Synchronized
import NestClient.Proofs.Text.Distinct

/-! A run that succeeds, told by the plans of its workspace.

* `Produced`, `exists_produced`: the clients that are rendered for the plans, the files that are written,
  and the disk that holds them before the manifest comes.
* `Produced.names_eq`, `Produced.nodup_written_iff`: what the run answers says of its clients.
* `Produced.find?_place`: each client has its file unless a later one takes it. -/

namespace NestClient

open Disk NestClient.Action

variable {d m e : Disk} {root : Path} {config : Config} {f f' : GeneratedFile}

/-! ## Files as seen from the workspace -/

/-- How a file is named from the workspace says where it is. -/
theorem place_eq_of_relative (hroot : ∀ n ∈ root.names, IsEntryName n) (hf : f.Placed) {t : Text}
    (h : ((f.place (config.outputPath root)).relativeTo? root).map Path.text = some t) :
    f.place (config.outputPath root) = ⟨root.anchor, root.names ++ (Path.ofText t).names⟩ := by
  obtain ⟨names, -, hnames, hpath⟩ := hf
  obtain ⟨below, hbelow, rfl⟩ := Option.map_eq_some_iff.1 h
  obtain ⟨rest, hplace, rfl⟩ := Path.relativeTo?_eq_some hbelow
  rw [ofText_text, hplace]
  intro n hn
  have hmem : n ∈ (f.place (config.outputPath root)).names := by
    rw [hplace]
    exact List.mem_append_right _ hn
  rw [GeneratedFile.place, hpath, Path.append_here] at hmem
  rcases List.mem_append.1 hmem with hmem | hmem
  · exact isName_append hroot config.outputDir n hmem
  · exact (hnames n hmem).toIsName

theorem ofText_eq_of_relative (hroot : ∀ n ∈ root.names, IsEntryName n) (hf : f.Placed) (hf' : f'.Placed)
    {t : Text} (h : ((f.place (config.outputPath root)).relativeTo? root).map Path.text = some t)
    (h' : ((f'.place (config.outputPath root)).relativeTo? root).map Path.text = some t) :
    Path.ofText f.path = Path.ofText f'.path := by
  have hsame := (place_eq_of_relative hroot hf h).trans (place_eq_of_relative hroot hf' h').symm
  obtain ⟨names, -, -, hpath, hplace⟩ := hf.place_eq (config.outputPath root)
  obtain ⟨names', -, -, hpath', hplace'⟩ := hf'.place_eq (config.outputPath root)
  rw [hplace, hplace'] at hsame
  rw [hpath, hpath', List.append_cancel_left (congrArg Path.names hsame)]

/-! ## The steps of a run -/

/-- What a run that succeeds has done: the disk `m` is the one between writing the clients and writing
the manifest. -/
structure Produced (root : Path) (config : Config) (plans : List Plan)
    (rendered : List (GeneratedFile × ClientDescriptor)) (m : Disk) (g : Generation) (e : Disk) :
    Prop where
  placed : ∀ plan ∈ plans, plan.group.Placed
  renders : plans.map (Plan.rendered? config) = rendered.map some
  clients : g.clients = rendered.map (·.2)
  written : (rendered.map fun r =>
    ((r.1.place (config.outputPath root)).relativeTo? root).map Path.text) = g.written.map some
  filled : (∀ n ∈ (config.outputPath root).names, n ≠ ['.', '.']) →
    Synchronized (config.outputPath root) (rendered.map (·.1)) m
  manifest : Gives (writeText (config.manifestFile root) (Client.renderManifest config g.clients)) m
    () e

theorem exists_produced (h : d.IsTree) {g : Generation} {t : Session}
    (hrun : (generate root config).run.run ⟨d, []⟩ = (.ok g, t)) :
    ∃ analysis u rendered m, (analyze root config).run.run ⟨d, []⟩ = (.ok analysis, u) ∧
      Produced root config analysis.plans rendered m g t.disk := by
  have hin : Project.InputsAgree d d root config := fun _ _ _ _ _ => rfl
  obtain ⟨analysis, u, hanalyze, hrest⟩ := Steps.exists_of_bind_ok hrun
  obtain ⟨hd, -, hplans⟩ := (reads_analyze h h hin hin).gives ⟨_, _, rfl, rfl, hanalyze⟩
  have hrun : Gives _ d g t.disk := ⟨u, t, hd, rfl, hrest⟩
  obtain ⟨rendered, _, hrender, hfilling⟩ := hrun.of_bind
  obtain ⟨rfl, -, hrenders⟩ :=
    (reads_mapM analysis.plans fun plan _ => reads_render plan).gives hrender
  obtain ⟨written, m, hfill, hexporting⟩ := hfilling.of_bind
  obtain ⟨rfl, hfilled⟩ :=
    synchronized_of_gives h (fun f hf => placed_of_rendered hrenders hplans hf) hfill
  obtain ⟨_, e, hmanifest, hreporting⟩ := hexporting.of_bind
  obtain ⟨_, _, hreport, htelling⟩ := hreporting.of_bind
  obtain rfl := hreport.of_report
  -- what comes now only says where the files are
  obtain ⟨texts, _, htexts, htelling₁⟩ := htelling.of_bind
  obtain ⟨rfl, -, hwritten⟩ := (reads_mapM _ fun p _ => reads_relative p root).gives htexts
  obtain ⟨_, _, houtput, htelling₂⟩ := htelling₁.of_bind
  obtain ⟨rfl, -, -⟩ := (reads_relative _ root).gives houtput
  obtain ⟨_, _, hfile, hanswer⟩ := htelling₂.of_bind
  obtain ⟨rfl, -, -⟩ := (reads_relative _ root).gives hfile
  obtain ⟨rfl, rfl⟩ := hanswer.of_pure
  rw [List.map_map, List.map_map] at hwritten
  exact ⟨analysis, u, rendered, m, hanalyze, hplans, hrenders, rfl, hwritten, hfilled, hmanifest⟩

namespace Produced

variable {plans : List Plan} {rendered : List (GeneratedFile × ClientDescriptor)} {g : Generation}
  {r : GeneratedFile × ClientDescriptor} (h : Produced root config plans rendered m g e)

include h

theorem names_eq :
    g.clients.map (·.className) = plans.map fun plan => clientClassName plan.group.name := by
  rw [h.clients, List.map_map]
  refine map_rendered h.renders fun plan r hr => ?_
  rw [Function.comp_apply, (render_of_rendered hr).2]
  exact (isClientOf_of_rendered hr).className

theorem paths_eq : (rendered.map fun r => Path.ofText r.1.path)
    = plans.map fun plan => Path.ofText (Client.filePath plan.group) :=
  map_rendered h.renders fun plan r hr => by rw [(isClientOf_of_rendered hr).path]

theorem placed_of_mem (hr : r ∈ rendered) : r.1.Placed :=
  placed_of_rendered h.renders h.placed (List.mem_map_of_mem hr)

theorem nodup_written_iff (hroot : ∀ n ∈ root.names, IsEntryName n) :
    g.written.Nodup ↔ (rendered.map fun r => Path.ofText r.1.path).Nodup := by
  rw [← List.nodup_map_iff (Option.some_injective Text), ← h.written]
  constructor
  · refine Text.nodup_map_of_nodup_map fun r _ r' _ heq => ?_
    rw [GeneratedFile.place, GeneratedFile.place, heq]
  · refine Text.nodup_map_of_nodup_map fun r hr r' hr' heq => ?_
    have hmem := List.mem_map_of_mem (f := fun r =>
      ((r.1.place (config.outputPath root)).relativeTo? root).map Path.text) hr
    rw [h.written] at hmem
    obtain ⟨t, -, ht⟩ := List.mem_map.1 hmem
    exact ofText_eq_of_relative hroot (h.placed_of_mem hr) (h.placed_of_mem hr') ht.symm
      (heq.symm.trans ht.symm)

/-- Before the manifest is written each client has its file. -/
theorem find?_place (hdots : ∀ n ∈ (config.outputPath root).names, n ≠ ['.', '.'])
    (hpaths : (rendered.map fun r => Path.ofText r.1.path).Nodup) (hr : r ∈ rendered) :
    ∃ l, m.find? (r.1.place (config.outputPath root))
      = some (l, .file (Utf8.encode r.1.contents)) := by
  obtain ⟨before, after, rfl⟩ := List.append_of_mem hr
  refine (h.filled hdots).last (before.map (·.1)) r.1 (after.map (·.1)) (by simp) fun f hf heq => ?_
  obtain ⟨r', hr', rfl⟩ := List.mem_map.1 hf
  rw [List.map_append, List.map_cons] at hpaths
  have hlater := (List.nodup_cons.1 (List.nodup_append.1 hpaths).2.1).1
  exact hlater (List.mem_map.2 ⟨r', hr', heq⟩)

end Produced

end NestClient
