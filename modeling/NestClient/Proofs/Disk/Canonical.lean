import NestClient.Proofs.Disk.Scan

/-! A scan gives the set of the files that patterns match, in the one order that their paths have.

* `Canonical`: increasing paths, which are those of the files found (`canonical_scan`).
* `Canonical.unique`: nothing but the set of the files found counts.
* `scan_canonical`: the order or repetition of patterns and of ignored names leaves no trace, more
  patterns take no file away, and more ignored names bring none in. -/

namespace NestClient.Disk

variable {d : Disk} {root p q : Path} {patterns patterns' ignores ignores' : List Text}
  {paths paths' : List Path}

/-! ## Files found -/

/-- More patterns and fewer ignored names leave a file found. -/
theorem Scanned.mono (h : d.Scanned root patterns ignores p) (hpatterns : patterns ⊆ patterns')
    (hignores : ignores' ⊆ ignores) : d.Scanned root patterns' ignores' p := by
  obtain ⟨t, ht, pattern, hread, names, hnames, rfl, hfile, hignored⟩ := h
  exact ⟨t, hpatterns ht, pattern, hread, names, hnames, rfl, hfile,
    fun name hname hmem => hignored name hname (hignores hmem)⟩

theorem mem_scan_iff (h : d.IsTree) (hscan : d.scan root patterns ignores = .ok paths) :
    q ∈ paths ↔ ∃ p, d.Scanned root patterns ignores p ∧ d.resolve p = .ok q := by
  constructor
  · intro hq
    obtain ⟨p, m, bytes, hp, hfind, rfl⟩ := mem_scan h hscan hq
    exact ⟨p, hp, resolve_of_find? h hfind⟩
  · rintro ⟨p, hp, hresolve⟩
    obtain ⟨-, rfl⟩ := scan_eq_ok_iff.1 hscan
    obtain ⟨names, hnames, -⟩ := hp.exists_names
    obtain ⟨t, ht, pattern, hread, names, hnames, rfl, hfile, hignored⟩ := hp
    obtain ⟨m, bytes, hfind⟩ := isFile_iff.1 hfile
    have hq : (⟨.root, m⟩ : Path) = q := Except.ok.inj ((resolve_of_find? h hfind).symm.trans hresolve)
    rw [Text.mem_sortBy, Text.mem_distinct]
    refine List.mem_filterMap.2 ⟨names, List.mem_flatMap.2 ⟨pattern, ?_, hnames⟩, ?_⟩
    · exact List.mem_filterMap.2 ⟨t, ht, by rw [hread]; rfl⟩
    · exact (scanned?_eq_some_iff h).2 ⟨hignored, m, bytes, hfind, hq.symm⟩

theorem Scanned.resolves (h : d.IsTree) (hp : d.Scanned root patterns ignores p) :
    ∃ q, d.resolve p = .ok q := by
  obtain ⟨t, ht, pattern, hread, names, hnames, rfl, hfile, hignored⟩ := hp
  obtain ⟨m, bytes, hfind⟩ := isFile_iff.1 hfile
  exact ⟨_, resolve_of_find? h hfind⟩

/-! ## The order of the paths -/

theorem increasing_scan (h : d.IsTree) (hscan : d.scan root patterns ignores = .ok paths) :
    paths.Pairwise fun p q => p.text < q.text := by
  have hle : paths.Pairwise fun p q => Path.le p q = true := by
    obtain ⟨-, rfl⟩ := scan_eq_ok_iff.1 hscan
    have htrans : ∀ p q r : Path, Path.le p q → Path.le q r → Path.le p r := fun _ _ _ => Text.le_trans
    exact Text.pairwise_sortBy htrans (fun _ _ => Text.le_total _ _) _
  have hends : ∀ q ∈ paths, ∃ m e, d.get? m = some e ∧ q = ⟨.root, m⟩ := by
    intro q hq
    obtain ⟨p, m, bytes, -, hfind, rfl⟩ := mem_scan h hscan hq
    exact ⟨m, _, h.get?_of_find? hfind, rfl⟩
  -- two paths of a scan that are written alike are one
  refine (hle.and (nodup_scan hscan)).imp_of_mem fun {p q} hp hq hpq => ?_
  refine lt_of_le_of_ne (Text.le_iff.1 hpq.1) fun heq => hpq.2 ?_
  have hqp : Path.le q p = true := Text.le_iff.2 heq.ge
  exact le_antisymm_of_get? h (hends p hp) (hends q hq) hpq.1 hqp

theorem eq_of_increasing (h : paths.Pairwise fun p q => p.text < q.text)
    (h' : paths'.Pairwise fun p q => p.text < q.text) (hmem : ∀ q, q ∈ paths ↔ q ∈ paths') :
    paths = paths' := by
  have hne : ∀ {p q : Path}, p.text < q.text → p ≠ q := by
    rintro p q hlt rfl
    exact lt_irrefl _ hlt
  have hperm : paths.Perm paths' :=
    (List.perm_ext_iff_of_nodup (h.imp hne) (h'.imp hne)).2 hmem
  exact hperm.eq_of_pairwise (fun p q _ _ hpq hqp => absurd hqp (lt_asymm hpq)) h h'

/-! ## Scans -/

/-- The paths are those that the files found lead to, each once, in the order in which they are written;
and each file found leads to one. -/
structure Canonical (d : Disk) (root : Path) (patterns ignores : List Text) (paths : List Path) :
    Prop where
  increasing : paths.Pairwise fun p q => p.text < q.text
  mem_iff : ∀ q, q ∈ paths ↔ ∃ p, d.Scanned root patterns ignores p ∧ d.resolve p = .ok q
  resolves : ∀ p, d.Scanned root patterns ignores p → ∃ q, d.resolve p = .ok q

theorem canonical_scan (h : d.IsTree) (hscan : d.scan root patterns ignores = .ok paths) :
    Canonical d root patterns ignores paths where
  increasing := increasing_scan h hscan
  mem_iff _ := mem_scan_iff h hscan
  resolves _ hp := hp.resolves h

namespace Canonical

variable (h : Canonical d root patterns ignores paths) (h' : Canonical d root patterns' ignores' paths')

include h h'

/-- More patterns and fewer ignored names take no file away. -/
theorem subset (hpatterns : patterns ⊆ patterns') (hignores : ignores' ⊆ ignores) : paths ⊆ paths' := by
  intro q hq
  obtain ⟨p, hp, hresolve⟩ := (h.mem_iff q).1 hq
  exact (h'.mem_iff q).2 ⟨p, hp.mono hpatterns hignores, hresolve⟩

/-- Neither the order nor the repetition of patterns and ignored names counts. -/
theorem unique (hpatterns : ∀ t, t ∈ patterns ↔ t ∈ patterns') (hignores : ∀ n, n ∈ ignores ↔ n ∈ ignores') :
    paths = paths' := by
  refine eq_of_increasing h.increasing h'.increasing fun q => ⟨?_, ?_⟩
  · exact fun hq => h.subset h' (fun t => (hpatterns t).1) (fun n => (hignores n).2) hq
  · exact fun hq => h'.subset h (fun t => (hpatterns t).2) (fun n => (hignores n).1) hq

end Canonical

theorem exists_scan (hscan : d.scan root patterns ignores = .ok paths) (hpatterns : patterns' ⊆ patterns)
    (ignores' : List Text) : ∃ paths', d.scan root patterns' ignores' = .ok paths' :=
  ⟨_, scan_eq_ok_iff.2 ⟨fun t ht => (scan_eq_ok_iff.1 hscan).1 t (hpatterns ht), rfl⟩⟩

/-- A scan is canonical: the paths of the files found, increasing; the same for the same sets of patterns
and ignored names; none less for more patterns, and none more for more ignored names. -/
theorem scan_canonical (h : d.IsTree) (hscan : d.scan root patterns ignores = .ok paths) :
    Canonical d root patterns ignores paths ∧
      (∀ patterns' ignores', (∀ t, t ∈ patterns ↔ t ∈ patterns') → (∀ n, n ∈ ignores ↔ n ∈ ignores') →
        d.scan root patterns' ignores' = .ok paths) ∧
      (∀ patterns' paths', patterns ⊆ patterns' → d.scan root patterns' ignores = .ok paths' →
        paths ⊆ paths') ∧
      ∀ ignores', ignores ⊆ ignores' →
        ∃ paths', d.scan root patterns ignores' = .ok paths' ∧ paths' ⊆ paths := by
  have hcanonical := canonical_scan h hscan
  refine ⟨hcanonical, ?_, ?_, ?_⟩
  · intro patterns' ignores' hpatterns hignores
    obtain ⟨paths', hscan'⟩ := exists_scan hscan (fun t => (hpatterns t).2) ignores'
    rw [hscan', hcanonical.unique (canonical_scan h hscan') hpatterns hignores]
  · intro patterns' paths' hpatterns hscan'
    exact hcanonical.subset (canonical_scan h hscan') hpatterns (List.Subset.refl _)
  · intro ignores' hignores
    obtain ⟨paths', hscan'⟩ := exists_scan hscan (List.Subset.refl _) ignores'
    exact ⟨paths', hscan', (canonical_scan h hscan').subset hcanonical (List.Subset.refl _) hignores⟩

/-- A file that is reached through links too, one of them among build results. -/
def linkedSources : Disk where
  entries := [
    (["w".toList], .directory), (["w".toList, "src".toList], .directory),
    (["w".toList, "src".toList, "b.ts".toList], .file []),
    (["w".toList, "src".toList, "a.ts".toList], .link "b.ts".toList),
    (["w".toList, "dist".toList], .directory),
    (["w".toList, "dist".toList, "c.ts".toList], .link "../src/b.ts".toList),
    (["w".toList, "dist".toList, "d.ts".toList], .file [])]

def workspaceRoot : Path := ⟨.root, ["w".toList]⟩

theorem scan_canonical_linkedSources :
    ∃ paths, linkedSources.scan workspaceRoot ["src/*.ts".toList, "**/*.ts".toList] [] = .ok paths ∧
      paths.map Path.text = ["/w/dist/d.ts".toList, "/w/src/b.ts".toList] ∧
      Canonical linkedSources workspaceRoot ["src/*.ts".toList, "**/*.ts".toList] [] paths ∧
      linkedSources.scan workspaceRoot ["**/*.ts".toList, "src/*.ts".toList] [] = .ok paths ∧
      ∃ paths', linkedSources.scan workspaceRoot ["src/*.ts".toList, "**/*.ts".toList] ["dist".toList]
        = .ok paths' ∧ paths' ⊆ paths := by
  have hscan : linkedSources.scan workspaceRoot ["src/*.ts".toList, "**/*.ts".toList] []
      = .ok [⟨.root, ["w".toList, "dist".toList, "d.ts".toList]⟩,
        ⟨.root, ["w".toList, "src".toList, "b.ts".toList]⟩] := by
    decide +kernel
  obtain ⟨hcanonical, hsame, -, hless⟩ := scan_canonical (by decide +kernel) hscan
  refine ⟨_, hscan, by decide, hcanonical, hsame _ _ (fun t => ?_) fun _ => Iff.rfl,
    hless _ (List.nil_subset _)⟩
  simp [or_comm]

/-- The file below `src` stays without the link among the build results. -/
example : linkedSources.scan workspaceRoot ["src/*.ts".toList, "**/*.ts".toList] ["dist".toList]
    = .ok [⟨.root, ["w".toList, "src".toList, "b.ts".toList]⟩] := by
  decide +kernel

end NestClient.Disk
