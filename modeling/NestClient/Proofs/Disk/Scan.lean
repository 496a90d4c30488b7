import NestClient.Disk.Scan
import NestClient.Proofs.Disk.Resolve
import NestClient.Proofs.Text.Distinct
import NestClient.Proofs.Text.Sort

/-! What a scan depends on.

* `Passes`: a location that following a path looks at.
* `mem_matchesFrom_congr`: a match stays one where all that its path passes is the same.
* `scan_eq_ok_iff`: a scan goes through if all patterns can be read, as a traversal does whose steps all do
  (`mapM_eq_ok_iff`).
* `scan_congr`: the scan depends on what the paths of the files found pass, and on nothing else. Neither
  the order of the entries nor which of several names leads to a file leaves a trace. -/

namespace NestClient.Disk

/-! ## Paths and what they pass -/

/-- Following the path looks at the location. -/
def Passes (d : Disk) (p : Path) (v : Location) : Prop :=
  ∃ seen k m e, Way d [] p.names seen k m e ∧ v ∈ seen

variable {d d' : Disk} {root p : Path} {l m : Location} {names front : List Text} {e : Entry}

theorem find?_congr (hp : d.find? p = some (m, e))
    (hsame : ∀ v, d.Passes p v → d.get? v = d'.get? v) : d'.find? p = some (m, e) := by
  obtain ⟨hanchor, seen, k, hway, hk⟩ := find?_eq_some_iff.1 hp
  have hway' := hway.congr fun v hv => hsame v ⟨seen, k, m, e, hway, hv⟩
  exact find?_eq_some_iff.2 ⟨hanchor, seen, k, hway', hk⟩

/-- A path that goes through no link passes what leads to its end. -/
theorem passes_location (h : d.IsTree) (hget : d.get? p.names = some e) (hlink : ∀ t, e ≠ .link t)
    {v : Location} (hv : d.Passes p v) : v <+: p.names := by
  obtain ⟨seen, k, m, e', hway, hmem⟩ := hv
  obtain ⟨seen', hway', hseen⟩ := h.way hget hlink
  obtain ⟨rfl, -⟩ := hway.functional hway'
  exact hseen v hmem

theorem isFile_iff : d.isFile p = true ↔ ∃ m bytes, d.find? p = some (m, .file bytes) := by
  unfold isFile bytesAt?
  constructor
  · intro h
    split at h
    next m bytes hfind => exact ⟨m, bytes, hfind⟩
    all_goals simp at h
  · rintro ⟨m, bytes, hfind⟩
    rw [hfind]
    rfl

theorem directoryAt?_congr (h : d.find? p = d'.find? p) : d.directoryAt? p = d'.directoryAt? p := by
  rw [directoryAt?, directoryAt?, h]

theorem isDirectory_congr (h : d.find? p = d'.find? p) : d.isDirectory p = d'.isDirectory p := by
  rw [isDirectory, isDirectory, directoryAt?_congr h]

theorem holds_congr (h : d.find? p = d'.find? p) : d.holds p = d'.holds p := by
  rw [holds, holds, h]

/-- What stands at the first names of a path that leads to something: a directory, from which the
other names lead on. -/
theorem find?_front (hp : d.find? ⟨root.anchor, root.names ++ names⟩ = some (m, e))
    {back : List Text} (hnames : names = front ++ back) (hback : back ≠ []) :
    ∃ mid seen k, d.find? ⟨root.anchor, root.names ++ front⟩ = some (mid, .directory) ∧
      Way d mid back seen k m e ∧ (∀ v ∈ seen, d.Passes ⟨root.anchor, root.names ++ names⟩ v) ∧
      ∀ v, d.Passes ⟨root.anchor, root.names ++ front⟩ v →
        d.Passes ⟨root.anchor, root.names ++ names⟩ v := by
  obtain ⟨hanchor, seen, k, hway, hk⟩ := find?_eq_some_iff.1 hp
  have hsplit : root.names ++ names = (root.names ++ front) ++ back := by
    rw [hnames, List.append_assoc]
  have hall := hway
  rw [hsplit] at hall
  obtain ⟨seen₁, seen₂, k₁, k₂, mid, h₁, h₂, hseen, hsum⟩ := hall.append_cases hback
  refine ⟨mid, seen₂, k₂, find?_eq_some_iff.2 ⟨hanchor, seen₁, k₁, h₁, by omega⟩, h₂, ?_, ?_⟩
  · intro v hv
    exact ⟨seen, k, m, e, hway, hseen ▸ List.mem_append_right _ hv⟩
  · rintro v ⟨seen', k', m', e', hway', hv⟩
    obtain ⟨rfl, -⟩ := hway'.functional h₁
    exact ⟨seen, k, m, e, hway, hseen ▸ List.mem_append_left _ hv⟩

/-! ## Matches -/

theorem prefix_of_mem_matchesFrom {directoriesOnly : Bool} {steps : List PatternStep}
    (h : names ∈ d.matchesFrom root directoriesOnly steps front) : front <+: names := by
  induction steps generalizing front with
  | nil =>
    rw [matchesFrom, List.mem_singleton] at h
    exact h ▸ List.prefix_rfl
  | cons step more ih =>
    cases step with
    | up =>
      rw [matchesFrom] at h
      exact (List.prefix_append _ _).trans (ih h)
    | exactly name =>
      rw [matchesFrom] at h
      dsimp only at h
      rw [List.mem_ite_nil_right] at h
      exact (List.prefix_append _ _).trans (ih h.2)
    | like parts =>
      rw [matchesFrom] at h
      dsimp only at h
      split at h
      · simp at h
      · obtain ⟨name, -, h⟩ := List.mem_flatMap.1 h
        exact (List.prefix_append _ _).trans (ih h)
    | anyDepth =>
      rw [matchesFrom] at h
      dsimp only at h
      split at h
      · simp at h
      · obtain ⟨below, hbelow, hmem⟩ := List.mem_flatMap.1 h
        rcases List.mem_cons.1 hbelow with rfl | hbelow
        · exact ih hmem
        · obtain ⟨inner, -, rfl⟩ := List.mem_map.1 hbelow
          exact (List.prefix_append _ _).trans (ih hmem)

section

variable (hp : d.find? ⟨root.anchor, root.names ++ names⟩ = some (m, e))
  (hsame : ∀ v, d.Passes ⟨root.anchor, root.names ++ names⟩ v → d.get? v = d'.get? v)

include hp hsame

theorem find?_eq_front (hfront : front <+: names) :
    d.find? ⟨root.anchor, root.names ++ front⟩ = d'.find? ⟨root.anchor, root.names ++ front⟩ := by
  obtain ⟨back, hnames⟩ := hfront
  by_cases hback : back = []
  · subst hback
    rw [List.append_nil] at hnames
    rw [hnames, hp, find?_congr hp hsame]
  · obtain ⟨mid, seen, k, hfind, -, -, hpasses⟩ := find?_front hp hnames.symm hback
    rw [hfind, find?_congr hfind fun v hv => hsame v (hpasses v hv)]

/-- A match that goes on below the directory at its front looks at what it goes through there, so that
this is the same. -/
theorem get?_eq_of_front (h : d.IsTree) {inner : List Text} {entry : Entry}
    (hl : d.directoryAt? ⟨root.anchor, root.names ++ front⟩ = some l) (hinner : inner ≠ [])
    (hget : d.get? (l ++ inner) = some entry) (hpre : front ++ inner <+: names) :
    d'.get? (l ++ inner) = some entry := by
  obtain ⟨rest, hnames⟩ := hpre
  rw [List.append_assoc] at hnames
  obtain ⟨mid, seen, k, hfind, hway, hseen, -⟩ := find?_front hp hnames.symm (by simp [hinner])
  rw [directoryAt?_eq_some_iff.1 hl, Option.some.injEq, Prod.mk.injEq] at hfind
  obtain ⟨rfl, -⟩ := hfind
  rw [← hsame _ (hseen _ (h.mem_seen hinner hget hway)), hget]

/-- A match stays one where all that its path passes is the same. -/
theorem mem_matchesFrom_congr (h : d.IsTree) (h' : d'.IsTree) {directoriesOnly : Bool}
    {steps : List PatternStep} (hmem : names ∈ d.matchesFrom root directoriesOnly steps front) :
    names ∈ d'.matchesFrom root directoriesOnly steps front := by
  induction steps generalizing front with
  | nil => exact hmem
  | cons step more ih =>
    cases step with
    | up => exact ih hmem
    | exactly name =>
      rw [matchesFrom] at hmem ⊢
      dsimp only at hmem ⊢
      rw [List.mem_ite_nil_right] at hmem ⊢
      obtain ⟨hfits, hmem⟩ := hmem
      have hfind := find?_eq_front hp hsame (prefix_of_mem_matchesFrom hmem)
      rw [Path.append_here, isDirectory_congr hfind, holds_congr hfind] at hfits
      exact ⟨hfits, ih hmem⟩
    | like parts =>
      rw [matchesFrom] at hmem ⊢
      dsimp only at hmem ⊢
      simp only [Path.append_here] at hmem ⊢
      split at hmem
      next => simp at hmem
      next l hl =>
        obtain ⟨name, hname, hmem⟩ := List.mem_flatMap.1 hmem
        obtain ⟨hchild, hfits⟩ := List.mem_filter.1 hname
        obtain ⟨entry, hget⟩ := (mem_children h).1 hchild
        have hpre : front ++ [name] <+: names := prefix_of_mem_matchesFrom hmem
        have hfront : front <+: names := (List.prefix_append _ _).trans hpre
        have hget' := get?_eq_of_front hp hsame h hl (by simp) hget hpre
        rw [isDirectory_congr (find?_eq_front hp hsame hpre)] at hfits
        rw [← directoryAt?_congr (find?_eq_front hp hsame hfront), hl]
        exact List.mem_flatMap.2
          ⟨name, List.mem_filter.2 ⟨(mem_children h').2 ⟨entry, hget'⟩, hfits⟩, ih hmem⟩
    | anyDepth =>
      rw [matchesFrom] at hmem ⊢
      simp only [Path.append_here] at hmem ⊢
      split at hmem
      next => simp at hmem
      next l hl =>
        obtain ⟨below, hbelow, hmem⟩ := List.mem_flatMap.1 hmem
        have hpre : below <+: names := prefix_of_mem_matchesFrom hmem
        have hfront : front <+: names := by
          rcases List.mem_cons.1 hbelow with rfl | hbelow
          · exact hpre
          · obtain ⟨inner, -, rfl⟩ := List.mem_map.1 hbelow
            exact (List.prefix_append _ _).trans hpre
        rw [← directoryAt?_congr (find?_eq_front hp hsame hfront), hl]
        refine List.mem_flatMap.2 ⟨below, ?_, ih hmem⟩
        rcases List.mem_cons.1 hbelow with rfl | hbelow
        · exact List.mem_cons_self
        · obtain ⟨inner, hinner, rfl⟩ := List.mem_map.1 hbelow
          obtain ⟨hne, hget⟩ := (mem_directoriesBelow h).1 hinner
          have hget' := get?_eq_of_front hp hsame h hl hne hget hpre
          exact List.mem_cons_of_mem _ (List.mem_map_of_mem ((mem_directoriesBelow h').2 ⟨hne, hget'⟩))

theorem mem_matches_congr (h : d.IsTree) (h' : d'.IsTree) {pattern : PathPattern}
    (hmem : names ∈ d.matches root pattern) : names ∈ d'.matches root pattern := by
  have hroot := find?_eq_front hp hsame (List.nil_prefix : [] <+: names)
  rw [List.append_nil] at hroot
  rw [Disk.matches, List.mem_ite_nil_right] at hmem ⊢
  obtain ⟨hdir, hmem⟩ := hmem
  rw [isDirectory_congr hroot] at hdir
  exact ⟨hdir, mem_matchesFrom_congr hp hsame h h' hmem⟩

end

/-! ## Scans -/

/-- The path is that of a file that a scan finds: a pattern matches it from the root on, and no directory
in between has an ignored name. -/
def Scanned (d : Disk) (root : Path) (patterns ignores : List Text) (p : Path) : Prop :=
  ∃ pattern ∈ patterns, ∃ read, PathPattern.ofText pattern = .ok read ∧
    ∃ names ∈ d.matches root read, p = root.append ⟨.here, names⟩ ∧ d.isFile p = true ∧
      ∀ name ∈ names.dropLast, name ∉ ignores

theorem Scanned.exists_names {patterns ignores : List Text} (h : d.Scanned root patterns ignores p) :
    ∃ names ∈ (patterns.filterMap fun t => (PathPattern.ofText t).toOption).flatMap (d.matches root),
      p = root.append ⟨.here, names⟩ := by
  obtain ⟨pattern, hpattern, read, hread, names, hnames, rfl, -⟩ := h
  refine ⟨names, List.mem_flatMap.2 ⟨read, List.mem_filterMap.2 ⟨pattern, hpattern, ?_⟩, hnames⟩, rfl⟩
  rw [hread]
  rfl

theorem underIgnored_eq_false_iff {ignores : List Text} :
    (⟨.here, names⟩ : Path).underIgnored ignores = false ↔ ∀ name ∈ names.dropLast, name ∉ ignores := by
  rw [Path.underIgnored, Path.parts, if_pos rfl, List.any_eq_false]
  simp only [List.contains_iff_mem]

theorem scanned?_eq_some_iff {ignores : List Text} (h : d.IsTree) {q : Path} :
    d.scanned? root ignores names = some q ↔
      (∀ name ∈ names.dropLast, name ∉ ignores) ∧
        ∃ m bytes, d.find? (root.append ⟨.here, names⟩) = some (m, .file bytes) ∧ q = ⟨.root, m⟩ := by
  unfold scanned?
  dsimp only
  rw [← underIgnored_eq_false_iff]
  constructor
  · intro hq
    split at hq
    next hfile =>
      rw [Bool.and_eq_true, Bool.not_eq_true', isFile_iff] at hfile
      obtain ⟨⟨m, bytes, hfind⟩, hignored⟩ := hfile
      rw [resolve_of_find? h hfind] at hq
      exact ⟨hignored, m, bytes, hfind, (Option.some.inj hq).symm⟩
    next => simp at hq
  · rintro ⟨hignored, m, bytes, hfind, rfl⟩
    rw [isFile_iff.2 ⟨m, bytes, hfind⟩, hignored, resolve_of_find? h hfind]
    rfl

/-- The files found before they are sorted. -/
theorem mem_found_congr (h : d.IsTree) (h' : d'.IsTree) {patterns ignores : List Text}
    {read : List PathPattern}
    (hread : ∀ r ∈ read, ∃ pattern ∈ patterns, PathPattern.ofText pattern = .ok r)
    (hsame : ∀ p, d.Scanned root patterns ignores p → ∀ v, d.Passes p v → d.get? v = d'.get? v)
    {q : Path} (hq : q ∈ (read.flatMap (d.matches root)).filterMap (d.scanned? root ignores)) :
    q ∈ (read.flatMap (d'.matches root)).filterMap (d'.scanned? root ignores) := by
  obtain ⟨names, hnames, hscanned⟩ := List.mem_filterMap.1 hq
  obtain ⟨r, hr, hmatch⟩ := List.mem_flatMap.1 hnames
  obtain ⟨hignored, m, bytes, hfind, rfl⟩ := (scanned?_eq_some_iff h).1 hscanned
  obtain ⟨pattern, hpattern, hof⟩ := hread r hr
  have hagree := hsame _ ⟨pattern, hpattern, r, hof, names, hmatch, rfl,
    isFile_iff.2 ⟨m, bytes, hfind⟩, hignored⟩
  refine List.mem_filterMap.2 ⟨names, List.mem_flatMap.2 ⟨r, hr, ?_⟩, ?_⟩
  · exact mem_matches_congr hfind hagree h h' hmatch
  · exact (scanned?_eq_some_iff h').2 ⟨hignored, m, bytes, find?_congr hfind hagree, rfl⟩

theorem mapM_eq_ok_iff {α β ε : Type} {f : α → Except ε β} {items : List α} {results : List β} :
    items.mapM f = .ok results ↔
      (∀ a ∈ items, ∃ b, f a = .ok b) ∧ results = items.filterMap fun a => (f a).toOption := by
  induction items generalizing results with
  | nil =>
    rw [List.mapM_nil]
    exact ⟨fun h => ⟨by simp, (Except.ok.inj h).symm⟩, fun h => congrArg Except.ok h.2.symm⟩
  | cons a items ih =>
    rw [List.mapM_cons, List.forall_mem_cons]
    cases ha : f a with
    | error e =>
      constructor
      · intro h
        cases h
      · rintro ⟨⟨⟨b, hb⟩, -⟩, -⟩
        cases hb
    | ok b =>
      have hkept : (f a).toOption = some b := by
        rw [ha]
        rfl
      rw [List.filterMap_cons_some (f := fun a => (f a).toOption) hkept]
      cases hmore : items.mapM f with
      | error e =>
        constructor
        · intro h
          cases h
        · rintro ⟨⟨-, hall⟩, -⟩
          rw [ih.2 ⟨hall, rfl⟩] at hmore
          cases hmore
      | ok more =>
        obtain ⟨hall, rfl⟩ := ih.1 hmore
        exact ⟨fun h => ⟨⟨⟨b, rfl⟩, hall⟩, (Except.ok.inj h).symm⟩,
          fun h => congrArg Except.ok h.2.symm⟩

theorem scan_eq_ok_iff {patterns ignores : List Text} {paths : List Path} :
    d.scan root patterns ignores = .ok paths ↔
      (∀ t ∈ patterns, ∃ pattern, PathPattern.ofText t = .ok pattern) ∧
        paths = Text.sortBy Path.le (Text.distinct
          (((patterns.filterMap fun t => (PathPattern.ofText t).toOption).flatMap
            (d.matches root)).filterMap (d.scanned? root ignores))) := by
  unfold scan
  cases hmap : patterns.mapM PathPattern.ofText with
  | error problem =>
    constructor
    · intro h
      cases h
    · rintro ⟨hall, -⟩
      rw [mapM_eq_ok_iff.2 ⟨hall, rfl⟩] at hmap
      cases hmap
  | ok read =>
    obtain ⟨hall, rfl⟩ := mapM_eq_ok_iff.1 hmap
    exact ⟨fun h => ⟨hall, (Except.ok.inj h).symm⟩, fun h => congrArg Except.ok h.2.symm⟩

theorem exists_of_mem_read {patterns : List Text} {r : PathPattern}
    (h : r ∈ patterns.filterMap fun t => (PathPattern.ofText t).toOption) :
    ∃ pattern ∈ patterns, PathPattern.ofText pattern = .ok r := by
  obtain ⟨pattern, hpattern, hread⟩ := List.mem_filterMap.1 h
  refine ⟨pattern, hpattern, ?_⟩
  cases hof : PathPattern.ofText pattern with
  | error problem =>
    rw [hof] at hread
    cases hread
  | ok read =>
    rw [hof] at hread
    rw [Option.some.inj hread]

theorem le_antisymm_of_get? (h : d.IsTree) {p q : Path}
    (hp : ∃ m e, d.get? m = some e ∧ p = ⟨.root, m⟩) (hq : ∃ m e, d.get? m = some e ∧ q = ⟨.root, m⟩)
    (hpq : Path.le p q = true) (hqp : Path.le q p = true) : p = q := by
  obtain ⟨m, e, hm, rfl⟩ := hp
  obtain ⟨n, e', hn, rfl⟩ := hq
  have htext := Text.le_antisymm hpq hqp
  rw [Path.text_root_injective (fun name hname => (h.isEntryName hm hname).toIsName)
    (fun name hname => (h.isEntryName hn hname).toIsName) htext]

/-- Each file of a scan is where the path of a file found leads. -/
theorem mem_scan (h : d.IsTree) {patterns ignores : List Text} {paths : List Path}
    (hscan : d.scan root patterns ignores = .ok paths) (hp : p ∈ paths) :
    ∃ q m bytes, d.Scanned root patterns ignores q ∧ d.find? q = some (m, .file bytes) ∧
      p = ⟨.root, m⟩ := by
  obtain ⟨-, rfl⟩ := scan_eq_ok_iff.1 hscan
  obtain ⟨names, hnames, hscanned⟩ :=
    List.mem_filterMap.1 (Text.mem_distinct.1 (Text.mem_sortBy.1 hp))
  obtain ⟨r, hr, hmatch⟩ := List.mem_flatMap.1 hnames
  obtain ⟨hignored, m, bytes, hfind, rfl⟩ := (scanned?_eq_some_iff h).1 hscanned
  obtain ⟨pattern, hpattern, hof⟩ := exists_of_mem_read hr
  exact ⟨_, m, bytes, ⟨pattern, hpattern, r, hof, names, hmatch, rfl,
    isFile_iff.2 ⟨m, bytes, hfind⟩, hignored⟩, hfind, rfl⟩

theorem nodup_scan {patterns ignores : List Text} {paths : List Path}
    (h : d.scan root patterns ignores = .ok paths) : paths.Nodup := by
  obtain ⟨-, rfl⟩ := scan_eq_ok_iff.1 h
  exact (Text.sortBy_perm _).nodup_iff.2 (Text.nodup_distinct _)

/-- A scan depends on what the paths of the files found pass, and on nothing else. -/
theorem scan_congr (h : d.IsTree) (h' : d'.IsTree) {patterns ignores : List Text}
    (hsame : ∀ p, d.Scanned root patterns ignores p → ∀ v, d.Passes p v → d.get? v = d'.get? v)
    (hsame' : ∀ p, d'.Scanned root patterns ignores p → ∀ v, d'.Passes p v → d'.get? v = d.get? v) :
    d.scan root patterns ignores = d'.scan root patterns ignores := by
  unfold scan
  cases hmap : patterns.mapM PathPattern.ofText with
  | error problem => rfl
  | ok read =>
    have hread : ∀ r ∈ read, ∃ pattern ∈ patterns, PathPattern.ofText pattern = .ok r := by
      obtain ⟨-, rfl⟩ := mapM_eq_ok_iff.1 hmap
      exact fun r => exists_of_mem_read
    refine congrArg Except.ok ?_
    have htrans : ∀ p q r : Path, Path.le p q → Path.le q r → Path.le p r :=
      fun _ _ _ => Text.le_trans
    have htotal : ∀ p q : Path, Path.le p q || Path.le q p := fun _ _ => Text.le_total _ _
    refine Text.sortBy_eq_of_perm htrans htotal ?_ ?_
    · have hroot : ∀ q ∈ Text.distinct
          ((read.flatMap (d.matches root)).filterMap (d.scanned? root ignores)),
          ∃ m e, d.get? m = some e ∧ q = ⟨.root, m⟩ := by
        intro q hq
        obtain ⟨names, -, hscanned⟩ := List.mem_filterMap.1 (Text.mem_distinct.1 hq)
        obtain ⟨-, m, bytes, hfind, rfl⟩ := (scanned?_eq_some_iff h).1 hscanned
        exact ⟨m, _, h.get?_of_find? hfind, rfl⟩
      exact fun p hp q hq => le_antisymm_of_get? h (hroot p hp) (hroot q hq)
    · refine (List.perm_ext_iff_of_nodup (Text.nodup_distinct _) (Text.nodup_distinct _)).2 fun q => ?_
      rw [Text.mem_distinct, Text.mem_distinct]
      exact ⟨mem_found_congr h h' hread hsame, mem_found_congr h' h hread hsame'⟩

end NestClient.Disk
