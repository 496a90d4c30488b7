import NestClient.Proofs.Generation.Filled

/-! What a directory holds after it has been emptied and files have been written below it, wherever
links on the way to it lead.

* `Synchronized`: no link stands below the directory, and what was written last to a place is there.
* `Synchronized.written`: one more file keeps that.
* `synchronized_of_gives`: so it holds of all of them. -/

namespace NestClient

open Disk NestClient.Action

/-- The path of a file below a directory. -/
def GeneratedFile.place (output : Path) (f : GeneratedFile) : Path := output.append (.ofText f.path)

/-- Some files have been written below a directory, one after the other: the last one of those with one
path is found there. The way to the directory may have been cut off when it was emptied, until the first
file makes it again. -/
structure Synchronized (output : Path) (files : List GeneratedFile) (e : Disk) : Prop where
  placed : ∀ f ∈ files, f.Placed
  rooted : e.LinksRooted
  plain : e.Plain output ∨ files = [] ∧ e.find? output = none
  last : ∀ before f after, files = before ++ f :: after →
    (∀ g ∈ after, Path.ofText g.path ≠ Path.ofText f.path) →
      ∃ l, e.find? (f.place output) = some (l, .file (Utf8.encode f.contents))

variable {d e e' : Disk} {output : Path} {files : List GeneratedFile} {f : GeneratedFile}

namespace GeneratedFile.Placed

/-- The path of the file goes on from that of the directory by names that all stay below it. -/
theorem place_eq (hf : f.Placed) (output : Path) : ∃ names, names ≠ [] ∧ (∀ n ∈ names, n ≠ ['.', '.']) ∧
    Path.ofText f.path = ⟨.here, names⟩ ∧ f.place output = ⟨output.anchor, output.names ++ names⟩ := by
  obtain ⟨names, hne, hnames, hpath⟩ := hf
  refine ⟨names, hne, fun n hn => (hnames n hn).ne_dots, hpath, ?_⟩
  rw [place, hpath, Path.append_here]

theorem ofText_eq_of_find? {g : GeneratedFile} {l : Location} {x x' : Entry} (hf : f.Placed)
    (hg : g.Placed) (hplain : e.Plain output) (hx : e.find? (f.place output) = some (l, x))
    (hx' : e.find? (g.place output) = some (l, x')) : Path.ofText f.path = Path.ofText g.path := by
  obtain ⟨names, hne, hdots, hpath, hplace⟩ := hf.place_eq output
  obtain ⟨names', hne', hdots', hpath', hplace'⟩ := hg.place_eq output
  rw [hplace] at hx
  rw [hplace'] at hx'
  rw [hpath, hpath', hplain.eq_of_find? hne hne' hdots hdots' hx hx']

end GeneratedFile.Placed

theorem eq_of_concat_eq {α : Type} {items before after : List α} {a b : α}
    (h : items ++ [a] = before ++ b :: after) :
    (after = [] ∧ items = before ∧ a = b) ∨ ∃ more, after = more ++ [a] ∧ items = before ++ b :: more := by
  rcases List.eq_nil_or_concat after with rfl | ⟨more, last, rfl⟩
  · obtain ⟨hitems, hlast⟩ := List.append_inj' h rfl
    exact .inl ⟨rfl, hitems, List.singleton_inj.1 hlast⟩
  · rw [List.concat_eq_append, ← List.cons_append, ← List.append_assoc] at h
    obtain ⟨hitems, hlast⟩ := List.append_inj' h rfl
    rw [List.concat_eq_append, List.singleton_inj.1 hlast]
    exact .inr ⟨more, rfl, hitems⟩

/-- One more file takes nothing away but what stood at its own place. -/
theorem Synchronized.written (h : Synchronized output files e) (hf : f.Placed)
    (hdots : ∀ n ∈ output.names, n ≠ ['.', '.']) {u : Unit}
    (hwrite : Gives (writeText (f.place output) f.contents) e u e') :
    Synchronized output (files ++ [f]) e' := by
  obtain ⟨l, hfound, hgrows⟩ := grows_writeText hwrite
  have hstill : e'.LinksRooted ∧ e'.Plain output := by
    obtain ⟨names, hne, hdots', -, hplace⟩ := hf.place_eq output
    rw [hplace] at hwrite
    refine plain_writeText h.rooted hne (fun n hn => ?_) (h.plain.imp_right And.right) hwrite
    exact (List.mem_append.1 hn).elim (hdots n) (hdots' n)
  refine ⟨?_, hstill.1, .inl hstill.2, ?_⟩
  · intro g hg
    rcases List.mem_append.1 hg with hg | hg
    · exact h.placed g hg
    · rw [List.mem_singleton.1 hg]
      exact hf
  · intro before g after hsplit hafter
    rcases eq_of_concat_eq hsplit with ⟨rfl, -, rfl⟩ | ⟨more, rfl, hfiles⟩
    · exact ⟨l, hfound⟩
    · obtain ⟨m, hbefore⟩ := h.last before g more hfiles
        fun g' hg' => hafter g' (List.mem_append_left _ hg')
      have hg : g.Placed := h.placed g (hfiles ▸ List.mem_append_right _ List.mem_cons_self)
      obtain ⟨x, hnow, rfl | ⟨rfl, -⟩⟩ := find?_grows hbefore hgrows
      · exact ⟨m, hnow⟩
      · exact absurd (hf.ofText_eq_of_find? hg hstill.2 hfound hnow)
          (hafter f (List.mem_append_right _ List.mem_cons_self))

/-- A directory that was emptied and filled holds the last file of each path, unless its own path leads
up on its way. -/
theorem synchronized_of_gives (h : d.IsTree) (hfiles : ∀ f ∈ files, f.Placed) {written : List Path}
    (hrun : Gives (synchronize output files) d written e) :
    written = files.map (GeneratedFile.place output) ∧
      ((∀ n ∈ output.names, n ≠ ['.', '.']) → Synchronized output files e) := by
  obtain ⟨n, d₁, hempty, hrest⟩ := hrun.of_bind
  obtain ⟨_, d₂, hreport, hfill⟩ := hrest.of_bind
  obtain rfl := hreport.of_report
  have hstart : (∀ n ∈ output.names, n ≠ ['.', '.']) → Synchronized output [] d₂ := by
    intro hdots
    obtain ⟨hrooted, hplain⟩ := DiskChange.plain_emptyDirectory h hdots hempty.of_change
    exact ⟨by simp, hrooted, hplain.imp_right fun hnone => ⟨rfl, hnone⟩, by simp⟩
  refine Gives.of_mapM
    (I := fun done e => (∀ n ∈ output.names, n ≠ ['.', '.']) → Synchronized output done e)
    ?_ hstart hfill
  intro done f hf d v e hdone hstep
  obtain ⟨_, m, hwrite, hrest⟩ := hstep.of_bind
  obtain ⟨_, m', hreport, hlast⟩ := hrest.of_bind
  obtain rfl := hreport.of_report
  obtain ⟨rfl, rfl⟩ := hlast.of_pure
  exact ⟨rfl, fun hdots => (hdone hdots).written (hfiles f hf) hdots hwrite⟩

end NestClient
