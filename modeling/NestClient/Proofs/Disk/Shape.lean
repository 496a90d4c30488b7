import NestClient.Disk.Scan
import NestClient.Proofs.Disk.Resolve

/-! What is left of a disk when the contents of its files are forgotten. Where paths lead, and what a scan
finds, does not depend on more.

* `find?_shape`, `resolve_shape`: a path leads to the same place.
* `scan_shape`: a scan finds the same files.
* `shape_put`: new contents of a file leave the shape as it is.
* `find?_put_file_of_ne`: they show to no path that leads elsewhere. -/

namespace NestClient

/-- The entry without the contents of a file. -/
def Entry.shape : Entry → Entry
  | file _ => file []
  | directory => directory
  | link target => link target

def Destination.shape : Destination → Destination
  | found l e => found l e.shape
  | absent l name => absent l name
  | lost => lost
  | blocked => blocked
  | entangled => entangled

def Stretch.shape : Stretch → Stretch
  | ends d => ends d.shape
  | atLink l target rest => atLink l target rest

namespace Disk

/-- The disk without the contents of its files. -/
def shape (d : Disk) : Disk := ⟨d.entries.map fun e => (e.1, e.2.shape)⟩

variable (d : Disk) {p : Path} {l m : Location}

/-! ## Following paths -/

theorem get?_shape (l : Location) : d.shape.get? l = (d.get? l).map Entry.shape := by
  have hlookup : ∀ entries : List (Location × Entry),
      (entries.map fun e => (e.1, e.2.shape)).lookup l = (entries.lookup l).map Entry.shape := by
    intro entries
    induction entries with
    | nil => rfl
    | cons e entries ih =>
      rw [List.map_cons, List.lookup_cons, List.lookup_cons, ih]
      split <;> rfl
  unfold get?
  split
  · rfl
  · exact hlookup d.entries

theorem stretch_shape (followLast : Bool) (l : Location) (names : List Text) :
    d.shape.stretch followLast l names = (d.stretch followLast l names).shape := by
  induction names generalizing l with
  | nil => rfl
  | cons name rest ih =>
    rw [stretch, stretch, get?_shape]
    split
    · exact ih l.dropLast
    · cases d.get? (l ++ [name]) with
      | none => cases rest <;> rfl
      | some e =>
        cases e with
        | directory => exact ih (l ++ [name])
        | file bytes => cases rest <;> rfl
        | link target => cases rest <;> cases followLast <;> rfl

theorem follow_shape (followLast : Bool) (links : Nat) (l : Location) (names : List Text) :
    d.shape.follow followLast links l names = (d.follow followLast links l names).shape := by
  induction links generalizing l names with
  | zero => rfl
  | succ links ih =>
    rw [follow, follow, stretch_shape]
    cases d.stretch followLast l names with
    | ends destination => rfl
    | atLink directory target rest => exact ih _ _

theorem reach_shape (followLast : Bool) (p : Path) :
    d.shape.reach followLast p = (d.reach followLast p).shape := by
  unfold reach
  split
  · rfl
  · exact d.follow_shape _ _ _ _

theorem find?_shape (p : Path) : d.shape.find? p = (d.find? p).map fun e => (e.1, e.2.shape) := by
  rw [find?, find?, reach_shape]
  cases d.reach true p <;> rfl

theorem holds_shape (p : Path) : d.shape.holds p = d.holds p := by
  rw [holds, holds, find?_shape, Option.isSome_map]

theorem isFile_shape (p : Path) : d.shape.isFile p = d.isFile p := by
  rw [isFile, isFile, bytesAt?, bytesAt?, find?_shape]
  cases d.find? p with
  | none => rfl
  | some e => obtain ⟨l, e⟩ := e; cases e <;> rfl

theorem directoryAt?_shape (p : Path) : d.shape.directoryAt? p = d.directoryAt? p := by
  rw [directoryAt?, directoryAt?, find?_shape]
  cases d.find? p with
  | none => rfl
  | some e => obtain ⟨l, e⟩ := e; cases e <;> rfl

theorem isDirectory_shape (p : Path) : d.shape.isDirectory p = d.isDirectory p := by
  rw [isDirectory, isDirectory, directoryAt?_shape]

/-! ## Paths without links -/

theorem resolveNames_shape {enter enter' : Location → Location → Text → Location × Bool}
    (h : ∀ link directory target, enter' link directory target = enter link directory target)
    (l : Location) (names : List Text) :
    d.shape.resolveNames enter' l names = d.resolveNames enter l names := by
  induction names generalizing l with
  | nil => rfl
  | cons name rest ih =>
    rw [resolveNames, resolveNames, get?_shape]
    split
    · exact ih l.dropLast
    · cases d.get? (l ++ [name]) with
      | none => exact ih _
      | some e =>
        cases e with
        | directory => exact ih _
        | file bytes => exact ih _
        | link target =>
          simp only [Option.map_some, Entry.shape, h, ih]

theorem resolveFrom_shape (depth : Nat) (busy : List Location) (l : Location) (names : List Text) :
    d.shape.resolveFrom depth busy l names = d.resolveFrom depth busy l names := by
  induction depth generalizing busy l names with
  | zero => exact d.resolveNames_shape (fun _ _ _ => rfl) l names
  | succ depth ih =>
    refine d.resolveNames_shape (fun link directory target => ?_) l names
    split
    · rfl
    · exact ih _ _ _

theorem resolve_shape (p : Path) : d.shape.resolve p = d.resolve p := by
  have hlength : d.shape.entries.length = d.entries.length := List.length_map ..
  rw [resolve, resolve, hlength, resolveFrom_shape]
  dsimp only
  rw [reach_shape]
  split <;> split <;> simp_all [Destination.shape]

/-! ## Scans -/

theorem children_shape (l : Location) : d.shape.children l = d.children l := by
  rw [children, shape, List.filterMap_map]
  rfl

theorem directoriesBelow_shape (l : Location) :
    d.shape.directoriesBelow l = d.directoriesBelow l := by
  rw [directoriesBelow, shape, List.filterMap_map, directoriesBelow]
  congr 1
  funext entry
  obtain ⟨m, e⟩ := entry
  dsimp only [Function.comp]
  cases l.isPrefixOf? m with
  | none => rfl
  | some rest => cases rest <;> cases e <;> rfl

theorem matchesFrom_shape (root : Path) (directoriesOnly : Bool) (steps : List PatternStep)
    (names : List Text) :
    d.shape.matchesFrom root directoriesOnly steps names
      = d.matchesFrom root directoriesOnly steps names := by
  induction steps generalizing names with
  | nil => rfl
  | cons step more ih =>
    cases step with
    | up => exact ih _
    | exactly name => simp only [matchesFrom, isDirectory_shape, holds_shape, ih]
    | like parts =>
      simp only [matchesFrom, directoryAt?_shape, isDirectory_shape, children_shape, ih]
    | anyDepth => simp only [matchesFrom, directoryAt?_shape, directoriesBelow_shape, ih]

theorem matches_shape (root : Path) (pattern : PathPattern) :
    d.shape.matches root pattern = d.matches root pattern := by
  rw [Disk.matches, Disk.matches, isDirectory_shape, matchesFrom_shape]

theorem scan_shape (root : Path) (patterns ignores : List Text) :
    d.shape.scan root patterns ignores = d.scan root patterns ignores := by
  have hmatches : d.shape.matches root = d.matches root := funext (d.matches_shape root)
  have hscanned : d.shape.scanned? root ignores = d.scanned? root ignores := by
    funext names
    rw [scanned?, scanned?, isFile_shape, resolve_shape]
  rw [scan, scan, hmatches, hscanned]

/-! ## New contents -/

variable {d} {bytes bytes' : List UInt8}

theorem shape_put (h : d.IsTree) (hfile : d.get? m = some (.file bytes)) :
    (d.put m (.file bytes')).shape = d.shape := by
  have hm : m ≠ [] := by
    rintro rfl
    cases hfile
  have hsome : (d.entries.lookup m).isSome := by
    rw [← get?_eq_lookup hm, hfile]
    rfl
  rw [put, if_pos hsome, shape, shape, List.map_map]
  congr 1
  refine List.map_congr_left fun e he => ?_
  obtain ⟨l, e⟩ := e
  by_cases hl : l = m
  · subst hl
    have hsame : e = .file bytes := Option.some.inj ((h.get?_of_mem he).symm.trans hfile)
    simp [hsame, Entry.shape]
  · simp [hl]

theorem IsTree.put_file (h : d.IsTree) (hfile : d.get? m = some (.file bytes)) :
    (d.put m (.file bytes')).IsTree := by
  rcases List.eq_nil_or_concat m with rfl | ⟨l, name, rfl⟩
  · cases hfile
  rw [List.concat_eq_append] at hfile ⊢
  refine h.put (h.isEntryName hfile (by simp)) (h.directory_of_snoc hfile) ?_
  rw [hfile]
  simp

/-- New contents of a file show at that file only. -/
theorem find?_put_file (h : d.IsTree) (hfile : d.get? m = some (.file bytes)) {e : Entry}
    (hfind : d.find? p = some (l, e)) (hl : l ≠ m) :
    (d.put m (.file bytes')).find? p = some (l, e) := by
  have hshape := (d.put m (.file bytes')).find?_shape p
  rw [shape_put h hfile, find?_shape, hfind, Option.map_some] at hshape
  obtain ⟨⟨l', e'⟩, hfind', hsame⟩ := Option.map_eq_some_iff.1 hshape.symm
  obtain ⟨rfl, -⟩ := Prod.mk.inj hsame
  have hget := (h.put_file hfile).get?_of_find? hfind'
  have hm : m ≠ [] := by
    rintro rfl
    cases hfile
  rw [get?_put hm, if_neg hl, h.get?_of_find? hfind] at hget
  rw [hfind', Option.some.inj hget]

theorem find?_put_file_of_ne (h : d.IsTree) (hfile : d.get? m = some (.file bytes))
    (hp : ∀ e, d.find? p ≠ some (m, e)) : (d.put m (.file bytes')).find? p = d.find? p := by
  cases hfind : d.find? p with
  | some found =>
    obtain ⟨l, e⟩ := found
    refine find?_put_file h hfile hfind ?_
    rintro rfl
    exact hp e hfind
  | none =>
    have hshape := (d.put m (.file bytes')).find?_shape p
    rw [shape_put h hfile, find?_shape, hfind] at hshape
    exact Option.map_eq_none_iff.1 hshape.symm

theorem scan_put_file (h : d.IsTree) (hfile : d.get? m = some (.file bytes)) (root : Path)
    (patterns ignores : List Text) :
    (d.put m (.file bytes')).scan root patterns ignores = d.scan root patterns ignores := by
  rw [← scan_shape, shape_put h hfile, scan_shape]

end Disk

end NestClient
