import Mathlib.Data.List.Basic
import NestClient.Text.Blank

/-! What stands at the ends and inside of a text: leads, tails, the pieces between separators, and a
part that no separator and no trimming takes anything from. -/

namespace NestClient.Text

/-! ## Leads and tails -/

theorem dropLead?_eq_some_iff {lead t rest : Text} :
    dropLead? lead t = some rest ↔ t = lead ++ rest :=
  List.isPrefixOf?_eq_some_iff_append_eq.trans eq_comm

theorem dropTail?_eq_some_iff {tail t before : Text} :
    dropTail? tail t = some before ↔ t = before ++ tail :=
  List.isSuffixOf?_eq_some_iff_append_eq.trans eq_comm

/-! ## Pieces -/

theorem split_of_not_mem {sep : Char} {t : Text} (h : sep ∉ t) : split sep t = [t] := by
  induction t with
  | nil => rfl
  | cons c rest ih =>
    have hc : c ≠ sep := fun e => h (by simp [e])
    have hr := ih fun hm => h (List.mem_cons_of_mem c hm)
    simp [split, hc, hr, lengthenHead]

theorem lengthenHead_ne_nil (c : Char) (pieces : List Text) : lengthenHead c pieces ≠ [] := by
  cases pieces <;> simp [lengthenHead]

theorem split_ne_nil (sep : Char) (t : Text) : split sep t ≠ [] := by
  cases t with
  | nil => simp [split]
  | cons c rest =>
    rw [split]
    split
    · simp
    · exact lengthenHead_ne_nil c _

theorem join_lengthenHead (sep c : Char) (pieces : List Text) :
    join [sep] (lengthenHead c pieces) = c :: join [sep] pieces := by
  cases pieces with
  | nil => rfl
  | cons piece more => cases more <;> simp [lengthenHead, join, List.intercalate]

theorem join_split (sep : Char) (t : Text) : join [sep] (split sep t) = t := by
  induction t with
  | nil => rfl
  | cons c rest ih =>
    obtain ⟨piece, more, hsplit⟩ := List.exists_cons_of_ne_nil (split_ne_nil sep rest)
    rw [split]
    split
    · next hc =>
      rw [hsplit] at ih ⊢
      simp [join, List.intercalate] at ih ⊢
      exact ⟨hc.symm, ih⟩
    · rw [join_lengthenHead, ih]

theorem flatMap_intercalate {α : Type} (f : α → Text) (sep : List α) (parts : List (List α)) :
    (List.intercalate sep parts).flatMap f = join (sep.flatMap f) (parts.map (·.flatMap f)) := by
  induction parts with
  | nil => rfl
  | cons first more ih =>
    cases more with
    | nil => simp [join, List.intercalate]
    | cons second more =>
      simp only [join, List.intercalate, List.map_cons, List.intersperse_cons_cons, List.flatten_cons,
        List.flatMap_append] at ih ⊢
      rw [ih]

/-! ## A part of a text -/

/-- A character outside of a part of a text stands before or behind that part. -/
theorem cons_append_cases {part : Text} {c : Char} (hc : c ∉ part) {before after left right : Text}
    (h : before ++ (part ++ after) = left ++ c :: right) :
    (∃ between, after = between ++ c :: right ∧ left = before ++ (part ++ between)) ∨
      ∃ between, before = left ++ c :: between ∧ right = between ++ (part ++ after) := by
  rcases List.append_eq_append_iff.1 h with ⟨more, hleft, hmore⟩ | ⟨more, hbefore, hmore⟩
  · rcases List.append_eq_append_iff.1 hmore with ⟨between, hb, ha⟩ | ⟨inner, hp, hi⟩
    · exact .inl ⟨between, ha, by rw [hleft, hb]⟩
    · cases inner with
      | nil =>
        rw [List.append_nil] at hp
        exact .inl ⟨[], hi.symm, by rw [hleft, hp, List.append_nil]⟩
      | cons d inner =>
        obtain ⟨rfl, -⟩ := List.cons.inj hi
        exact absurd (hp ▸ List.mem_append_right _ List.mem_cons_self) hc
  · cases more with
    | nil =>
      rw [List.append_nil] at hbefore
      rcases hpart : part with _ | ⟨d, more⟩
      · rw [hpart] at hmore
        exact .inl ⟨[], hmore.symm, by simp [hbefore]⟩
      · rw [hpart] at hmore hc
        obtain ⟨rfl, -⟩ := List.cons.inj hmore
        exact absurd List.mem_cons_self hc
    | cons d more =>
      obtain ⟨rfl, hright⟩ := List.cons.inj hmore
      exact .inr ⟨more, hbefore, hright⟩

theorem dropWhile_append_of_head? {p : Char → Bool} {t : Text} (hne : t ≠ [])
    (hp : ∀ c, t.head? = some c → p c = false) (before : Text) :
    (before ++ t).dropWhile p = before.dropWhile p ++ t := by
  have ht : t.dropWhile p = t := by
    cases t with
    | nil => exact absurd rfl hne
    | cons c t => rw [List.dropWhile_cons_of_neg (by simp [hp c rfl])]
  rw [List.dropWhile_append, ht]
  split
  · next hempty => rw [List.isEmpty_iff.1 hempty, List.nil_append]
  · rfl

/-- Trimming takes nothing from a part of the text whose ends are not blank. -/
theorem trim_append {part : Text} (hne : part ≠ [])
    (hfirst : ∀ c, part.head? = some c → isBlank c = false)
    (hlast : ∀ c, part.getLast? = some c → isBlank c = false) (before after : Text) :
    ∃ lead tail, trim (before ++ (part ++ after)) = lead ++ (part ++ tail) ∧ tail <+: after := by
  obtain ⟨d, part', rfl⟩ := List.exists_cons_of_ne_nil hne
  have hlead : (before ++ ((d :: part') ++ after)).dropWhile isBlank
      = before.dropWhile isBlank ++ ((d :: part') ++ after) :=
    dropWhile_append_of_head? (by simp) (fun c hc => hfirst c (by simpa using hc)) before
  refine ⟨before.dropWhile isBlank, (after.reverse.dropWhile isBlank).reverse, ?_, ?_⟩
  · rw [trim, trimBy, hlead, List.reverse_append, List.reverse_append, List.append_assoc,
      dropWhile_append_of_head? (by simp)]
    · simp
    · intro c hc
      refine hlast c ?_
      rw [← List.head?_reverse]
      cases hr : (d :: part').reverse with
      | nil => simp at hr
      | cons b more =>
        rw [hr] at hc
        exact hc
  · have hsuffix := List.dropWhile_suffix (l := after.reverse) isBlank
    rwa [← List.reverse_prefix, List.reverse_reverse] at hsuffix

theorem mem_join {sep part : Text} {parts : List Text} (h : part ∈ parts) :
    ∃ before after, join sep parts = before ++ (part ++ after) ∧ (after = [] ∨ sep <+: after) := by
  induction parts with
  | nil => simp at h
  | cons first more ih =>
    cases more with
    | nil =>
      rw [List.mem_singleton] at h
      exact ⟨[], [], by simp [join, List.intercalate, h], .inl rfl⟩
    | cons second more =>
      have hjoin : join sep (first :: second :: more) = first ++ (sep ++ join sep (second :: more)) := by
        simp [join, List.intercalate]
      rcases List.mem_cons.1 h with rfl | h
      · exact ⟨[], _, hjoin, .inr (List.prefix_append sep _)⟩
      · obtain ⟨before, after, hmore, hafter⟩ := ih h
        exact ⟨first ++ (sep ++ before), after, by simp [hjoin, hmore], hafter⟩

/-- A part of a text that is joined with a separator outside of the part lies in one of the pieces. -/
theorem exists_mem_of_join {c : Char} {part : Text} (hc : c ∉ part) (hne : part ≠ [])
    {parts : List Text} {before after : Text} (h : join [c] parts = before ++ (part ++ after)) :
    ∃ piece ∈ parts, ∃ lead tail, piece = lead ++ (part ++ tail) ∧ tail <+: after := by
  induction parts generalizing before with
  | nil =>
    have hempty : before ++ (part ++ after) = [] := by rw [← h]; rfl
    simp [hne] at hempty
  | cons first more ih =>
    cases more with
    | nil =>
      have hfirst : first = before ++ (part ++ after) := by rw [← h]; simp [join, List.intercalate]
      exact ⟨first, List.mem_cons_self, before, after, hfirst, List.prefix_rfl⟩
    | cons second more =>
      have hjoin : join [c] (first :: second :: more) = first ++ c :: join [c] (second :: more) := by
        simp [join, List.intercalate]
      rw [hjoin] at h
      rcases cons_append_cases hc h.symm with ⟨between, hafter, hfirst⟩ | ⟨between, -, hmore⟩
      · exact ⟨first, List.mem_cons_self, before, between, hfirst, hafter ▸ List.prefix_append _ _⟩
      · obtain ⟨piece, hp, lead, tail, hpiece, htail⟩ := ih hmore
        exact ⟨piece, List.mem_cons_of_mem _ hp, lead, tail, hpiece, htail⟩

end NestClient.Text
