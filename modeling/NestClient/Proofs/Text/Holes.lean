import Mathlib.Data.List.Basic
import NestClient.Proofs.Text.Template

/-! The holes that are left when a text is filled, and the values that bring in holes of their own.

* `partsFrom_append`: two texts are cut into pieces apart, unless a hole lies across their border.
* `parts_fill`: a filled text has the pieces of its fillings in the places of the holes filled.
* `settled_fillConstants_iff`: one filling leaves holes of known constants exactly if a value it puts in
  has some. -/

namespace NestClient.Template

/-- A text that nothing behind it makes a hole with: it leaves no hole open and none half opened. -/
structure Whole (t : Text) : Prop where
  closed : endsInside false t = false
  last : t.getLast? ≠ some '$'

/-- A dollar sign right before the start of a hole. -/
def dollarOpening : Text := '$' :: opening

/-- The pieces that a piece turns into. -/
def expand (value : Text → Option Text) : TemplatePart → List TemplatePart
  | .char c => [.char c]
  | .hole inner => ((value inner).map parts).getD [.hole inner]

variable {value : Text → Option Text} {s t : Text}

/-! ## Pieces of two texts in a row -/

theorem partsFrom_cons_of_not_open {c : Char} (h : c = '$' → t.head? ≠ some '{') :
    partsFrom none (c :: t) = .char c :: partsFrom none t := by
  rw [partsFrom]
  intro more hc hmore
  exact h hc (by rw [hmore]; rfl)

theorem partsFrom_append {inner : Option Text} (hclosed : endsInside inner.isSome s = false)
    (hlast : s.getLast? ≠ some '$') : partsFrom inner (s ++ t) = partsFrom inner s ++ partsFrom none t := by
  fun_induction partsFrom inner s with
  | case1 => rfl
  | case2 rest ih =>
    have hne : rest ≠ [] := by
      rintro rfl
      simp [endsInside] at hclosed
    obtain ⟨d, more, rfl⟩ := List.exists_cons_of_ne_nil hne
    exact ih hclosed (by rwa [List.getLast?_cons_cons, List.getLast?_cons_cons] at hlast)
  | case3 c rest hopen ih =>
    rw [Option.isSome_none, endsInside_of_not_open hopen] at hclosed
    cases rest with
    | nil =>
      have hc : c ≠ '$' := fun heq => hlast (by rw [heq]; rfl)
      exact partsFrom_cons_of_not_open fun heq => absurd heq hc
    | cons d rest =>
      have hstill : c = '$' → (d :: rest ++ t).head? ≠ some '{' := by
        intro hc heq
        exact hopen rest hc (by rw [Option.some.inj heq])
      rw [List.cons_append, partsFrom_cons_of_not_open hstill,
        ih hclosed (by rwa [List.getLast?_cons_cons] at hlast)]
      rfl
  | case4 inner => simp [endsInside] at hclosed
  | case5 inner rest ih =>
    rw [Option.isSome_some, endsInside, if_pos rfl] at hclosed
    have hrest : rest.getLast? ≠ some '$' := by
      cases rest with
      | nil => simp
      | cons d rest => rwa [List.getLast?_cons_cons] at hlast
    rw [List.cons_append, partsFrom, if_pos rfl, ih hclosed hrest]
    rfl
  | case6 inner c rest hc ih =>
    rw [Option.isSome_some, endsInside, if_neg hc] at hclosed
    have hrest : rest.getLast? ≠ some '$' := by
      cases rest with
      | nil => simp
      | cons d rest => rwa [List.getLast?_cons_cons] at hlast
    rw [List.cons_append, partsFrom, if_neg hc, ih hclosed hrest]

theorem parts_append_of_whole (h : Whole s) : parts (s ++ t) = parts s ++ parts t :=
  partsFrom_append h.closed h.last

/-- A hole as it is written is read back as that hole. -/
theorem parts_written_append {inner : Text} (h : '}' ∉ inner) :
    parts ((TemplatePart.hole inner).written ++ t) = .hole inner :: parts t := by
  have hwritten : (TemplatePart.hole inner).written ++ t = '$' :: '{' :: (inner ++ '}' :: t) := by
    simp [TemplatePart.written]
  rw [parts, hwritten, partsFrom, partsFrom_close h]
  rfl

theorem flatMap_written_chars (t : Text) :
    (t.map TemplatePart.char).flatMap TemplatePart.written = t := by
  simp [List.flatMap_map, TemplatePart.written]

theorem flatMap_expand_chars (t : Text) :
    (t.map TemplatePart.char).flatMap (expand value) = t.map .char := by
  rw [List.flatMap_map, List.map_eq_flatMap]
  rfl

theorem flatMap_written_partsFrom (inner : Option Text) (t : Text) :
    (partsFrom inner t).flatMap TemplatePart.written
      = (inner.map fun before => opening ++ before.reverse).getD [] ++ t := by
  fun_induction partsFrom inner t with
  | case1 => rfl
  | case2 rest ih => exact ih
  | case3 c rest hopen ih => exact congrArg (c :: ·) ih
  | case4 inner =>
    rw [flatMap_written_chars, List.append_nil]
    rfl
  | case5 inner rest ih =>
    rw [List.flatMap_cons, ih]
    simp [TemplatePart.written, opening]
  | case6 inner c rest hc ih =>
    rw [ih]
    simp

/-! ## Pieces of a filled text -/

theorem head?_filledParts_of_not_hole (h : t.head? ≠ some '$') :
    (filledParts value (partsFrom none t)).head? = t.head? := by
  cases t with
  | nil => rfl
  | cons c rest =>
    rw [partsFrom_cons_of_not_open fun hc => absurd (congrArg some hc) h]
    rfl

/-- A dollar sign that opens no hole and stands before no other that does still opens none when the text
behind it is filled. -/
theorem head?_filledParts_ne_brace (hopen : t.head? ≠ some '{') (hdollar : ¬dollarOpening <:+: '$' :: t) :
    (filledParts value (partsFrom none t)).head? ≠ some '{' := by
  by_cases hnext : t.head? = some '$'
  · obtain ⟨more, rfl⟩ := List.head?_eq_some_iff.1 hnext
    have hmore : '$' = '$' → more.head? ≠ some '{' := by
      intro _ hbrace
      obtain ⟨behind, rfl⟩ := List.head?_eq_some_iff.1 hbrace
      exact hdollar ⟨[], behind, rfl⟩
    rw [partsFrom_cons_of_not_open hmore]
    simp [filledParts]
  · rwa [head?_filledParts_of_not_hole hnext]

theorem filledParts_hole (inner : Text) : filledParts value [.hole inner]
    = (value inner).getD (TemplatePart.hole inner).written := by
  simp [filledParts]

/-- The pieces of a filled text are those of its pieces, one after the other. No piece makes up a hole
with its neighbours if the values put in are whole and no dollar sign stands before a hole. -/
theorem partsFrom_filledParts {inner : Option Text} (hinner : ∀ before ∈ inner, '}' ∉ before)
    (hdollar : ¬dollarOpening <:+: t)
    (hvalues : ∀ name, .hole name ∈ partsFrom inner t → ∀ v ∈ value name, Whole v) :
    parts (filledParts value (partsFrom inner t)) = (partsFrom inner t).flatMap (expand value) := by
  fun_induction partsFrom inner t with
  | case1 => rfl
  | case2 rest ih =>
    refine ih (by simp) (fun hin => hdollar ?_) hvalues
    exact hin.trans ((List.suffix_cons '{' rest).trans (List.suffix_cons '$' _)).isInfix
  | case3 c rest hopen ih =>
    have hrest := ih (by simp) (fun hin => hdollar (hin.trans (List.suffix_cons c rest).isInfix))
      fun name hname => hvalues name (List.mem_cons_of_mem _ hname)
    have hstill : c = '$' → (filledParts value (partsFrom none rest)).head? ≠ some '{' := by
      rintro rfl
      refine head?_filledParts_ne_brace (fun hbrace => ?_) hdollar
      obtain ⟨behind, rfl⟩ := List.head?_eq_some_iff.1 hbrace
      exact hopen behind rfl rfl
    rw [List.flatMap_cons, ← hrest]
    exact partsFrom_cons_of_not_open hstill
  | case4 inner =>
    have hclosed : '}' ∉ inner.reverse := by
      rw [List.mem_reverse]
      exact hinner inner rfl
    rw [filledParts_chars, flatMap_expand_chars, parts, partsFrom, partsFrom_of_not_closed hclosed]
    rfl
  | case5 inner rest ih =>
    have hrest := ih (by simp)
      (fun hin => hdollar (hin.trans (List.suffix_cons _ rest).isInfix))
      fun name hname => hvalues name (List.mem_cons_of_mem _ hname)
    rw [filledParts_cons, filledParts_hole, List.flatMap_cons, ← hrest]
    cases hvalue : value inner.reverse with
    | none =>
      have hclosed : '}' ∉ inner.reverse := by
        rw [List.mem_reverse]
        exact hinner inner rfl
      rw [Option.getD_none, parts_written_append hclosed, expand, hvalue]
      rfl
    | some v =>
      rw [Option.getD_some, parts_append_of_whole (hvalues _ List.mem_cons_self v hvalue), expand, hvalue]
      rfl
  | case6 inner c rest hc ih =>
    refine ih ?_ (fun hin => hdollar (hin.trans (List.suffix_cons c rest).isInfix)) hvalues
    rintro before ⟨⟩
    simpa [Ne.symm hc] using hinner inner rfl

theorem mem_holes {inner : Text} : inner ∈ holes t ↔ .hole inner ∈ parts t := by
  rw [holes, List.mem_filterMap]
  constructor
  · rintro ⟨part, hpart, hhole⟩
    cases part with
    | char c => simp [TemplatePart.hole?] at hhole
    | hole name =>
      obtain rfl : name = inner := Option.some.inj hhole
      exact hpart
  · exact fun h => ⟨_, h, rfl⟩

/-- The holes of a filled text are the unknown ones and those of the values. -/
theorem mem_holes_fill (hdollar : ¬dollarOpening <:+: t)
    (hvalues : ∀ name ∈ holes t, ∀ v ∈ value name, Whole v) {inner : Text} :
    inner ∈ holes (fill value t) ↔ inner ∈ holes t ∧ value inner = none ∨
      ∃ name ∈ holes t, ∃ v ∈ value name, inner ∈ holes v := by
  have hparts : parts (filledParts value (partsFrom none t)) = (parts t).flatMap (expand value) :=
    partsFrom_filledParts (by simp) hdollar fun name hname => hvalues name (mem_holes.2 hname)
  rw [mem_holes, fill_eq, hparts, List.mem_flatMap]
  constructor
  · rintro ⟨part, hpart, hinner⟩
    cases part with
    | char c => simp [expand] at hinner
    | hole name =>
      rw [expand] at hinner
      cases hvalue : value name with
      | none =>
        rw [hvalue] at hinner
        obtain rfl : inner = name := by simpa using hinner
        exact .inl ⟨mem_holes.2 hpart, hvalue⟩
      | some v =>
        rw [hvalue] at hinner
        exact .inr ⟨name, mem_holes.2 hpart, v, hvalue, mem_holes.2 hinner⟩
  · rintro (⟨hinner, hvalue⟩ | ⟨name, hname, v, hvalue, hinner⟩)
    · exact ⟨_, mem_holes.1 hinner, by simp [expand, hvalue]⟩
    · refine ⟨_, mem_holes.1 hname, ?_⟩
      rw [expand, Option.mem_def.1 hvalue]
      exact mem_holes.1 hinner

/-! ## Holes of known constants -/

/-- No hole of the text names a known constant, alone or at the end of a dotted expression. -/
def Settled (known : Constants) (t : Text) : Prop :=
  ∀ inner ∈ holes t, known.get? (lastName inner) = none

instance (known : Constants) (t : Text) : Decidable (Settled known t) :=
  inferInstanceAs (Decidable (∀ _ ∈ _, _))

/-- The values of the known constants that the holes of a text name. -/
def namedValues (known : Constants) (t : Text) : List Text :=
  (holes t).filterMap fun inner => known.get? (lastName inner)

variable {known : Constants}

theorem settled_of_holes_eq_nil (h : holes t = []) : Settled known t := by
  intro inner hinner
  rw [h] at hinner
  exact absurd hinner List.not_mem_nil

theorem settled_fillConstants_iff (hdollar : ¬dollarOpening <:+: t)
    (hvalues : ∀ v ∈ namedValues known t, Whole v) :
    Settled known (fillConstants known t) ↔ ∀ v ∈ namedValues known t, Settled known v := by
  have hwhole : ∀ name ∈ holes t, ∀ v ∈ known.get? (lastName name), Whole v := fun name hname v hv =>
    hvalues v (List.mem_filterMap.2 ⟨name, hname, hv⟩)
  constructor
  · intro hsettled v hv inner hinner
    obtain ⟨name, hname, hvalue⟩ := List.mem_filterMap.1 hv
    exact hsettled inner ((mem_holes_fill hdollar hwhole).2 (.inr ⟨name, hname, v, hvalue, hinner⟩))
  · intro hsettled inner hinner
    rcases (mem_holes_fill hdollar hwhole).1 hinner with ⟨-, hnone⟩ | ⟨name, hname, v, hvalue, hinner⟩
    · exact hnone
    · exact hsettled v (List.mem_filterMap.2 ⟨name, hname, hvalue⟩) inner hinner

/-- A text that names no known constant is filled as it is. -/
theorem Settled.fillConstants_eq (h : Settled known t) : fillConstants known t = t := by
  have hparts : ∀ part ∈ parts t, filledParts (fun inner => known.get? (lastName inner)) [part]
      = part.written := by
    intro part hpart
    cases part with
    | char c => rfl
    | hole inner => rw [filledParts_hole, h inner (mem_holes.2 hpart), Option.getD_none]
  calc fillConstants known t
      = (parts t).flatMap fun part => filledParts (fun inner => known.get? (lastName inner)) [part] := by
        exact List.flatMap_congr fun part _ => by cases part <;> simp [filledParts]
    _ = (parts t).flatMap TemplatePart.written := List.flatMap_congr hparts
    _ = t := flatMap_written_partsFrom none t

end NestClient.Template
