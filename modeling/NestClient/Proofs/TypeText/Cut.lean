import Mathlib.Data.Bool.AllAny
import NestClient.Proofs.TypeText.Parens
import NestClient.Proofs.TypeText.Stands

/-! Where a text is cut at a separator: at those that stand outside of all its brackets.

* `cut_append`: two texts written one after the other are cut as they are for themselves, the second at
  the depth to which the first one goes; the last piece and the first grow together.
* `splitTopLevel_eq_singleton_iff`, `needsParens_eq_false_iff`: when there is nothing to cut. -/

namespace NestClient.TypeText

variable {sep : Char} {before : Option Char} {d : Int} {t : Text}

/-- The character stands in the text outside of all brackets. -/
def StandsOpen (c : Char) (t : Text) : Prop :=
  ∃ front rest, t = front ++ c :: rest ∧ bracketDepth none front = 0

/-! ## One character -/

theorem cut_cons (isSep : Char → Bool) (before : Option Char) (d : Int) (c : Char) (rest : Text) :
    cut isSep before d (c :: rest) =
      if bracketWeight before c = 0 ∧ isSep c = true ∧ d = 0 then [] :: cut isSep (some c) d rest
      else Text.lengthenHead c (cut isSep (some c) (d + bracketWeight before c) rest) := by
  rw [cut, bracketWeight]
  split
  · rw [if_neg (by simp)]
  · split
    · rw [if_neg (by simp)]
      rfl
    · simp only [Int.add_zero, Bool.and_eq_true, decide_eq_true_eq, true_and]

theorem ne_nil_splitTopLevel (sep : Char) (t : Text) : splitTopLevel sep t ≠ [] := by
  rw [splitTopLevel, splitTopLevelBy, ne_eq, List.map_eq_nil_iff]
  exact cut_ne_nil _ _ _ _

/-! ## One text behind the other -/

theorem cut_append (isSep : Char → Bool) (before : Option Char) (d : Int) (s u : Text) :
    ∃ front last first more, cut isSep before d s = front ++ [last] ∧
      cut isSep (s.getLast?.or before) (d + bracketDepth before s) u = first :: more ∧
      cut isSep before d (s ++ u) = front ++ (last ++ first) :: more := by
  induction s generalizing before d with
  | nil =>
    obtain ⟨first, more, hcut⟩ := List.exists_cons_of_ne_nil (cut_ne_nil isSep before d u)
    refine ⟨[], [], first, more, rfl, ?_, hcut⟩
    rw [bracketDepth, Int.add_zero, List.getLast?_nil, Option.none_or, hcut]
  | cons c rest ih =>
    obtain ⟨front, last, first, more, hs, hu, hsu⟩ := ih (some c) (d + bracketWeight before c)
    rw [bracketDepth, ← Int.add_assoc, getLast?_cons_or, List.cons_append, cut_cons, cut_cons]
    by_cases hsep : bracketWeight before c = 0 ∧ isSep c = true ∧ d = 0
    · rw [hsep.1, Int.add_zero] at hs hsu
      rw [if_pos hsep, if_pos hsep, hs, hsu]
      exact ⟨[] :: front, last, first, more, rfl, hu, rfl⟩
    · rw [if_neg hsep, if_neg hsep, hs, hsu]
      cases front with
      | nil => exact ⟨[], c :: last, first, more, rfl, hu, rfl⟩
      | cons piece front => exact ⟨(c :: piece) :: front, last, first, more, rfl, hu, rfl⟩

/-! ## Texts that are not cut -/

theorem bracketWeight_separator (h : sep ∈ "|&,".toList) (before : Option Char) :
    bracketWeight before sep = 0 := by
  have hmarks : ∀ c ∈ "|&,".toList, ¬opens c = true ∧ c ≠ '>' ∧ c ∉ ")]\x7d".toList :=
    List.all_iff_forall_prop.1 (by decide)
  obtain ⟨hopen, hangle, hclose⟩ := hmarks sep h
  have hcloses : ¬closes before sep = true := by
    simp only [closes, closesAngle, Bool.or_eq_true, Bool.and_eq_true, decide_eq_true_eq]
    rintro (((rfl | rfl) | rfl) | ⟨rfl, -⟩)
    · exact hclose (by decide)
    · exact hclose (by decide)
    · exact hclose (by decide)
    · exact hangle rfl
  rw [bracketWeight, if_neg hopen, if_neg hcloses]

/-- The text is in one piece where no separator in it brings the brackets before it to nothing. -/
theorem length_cut_eq_one_iff (hsep : ∀ before, bracketWeight before sep = 0) :
    (cut (· = sep) before d t).length = 1 ↔
      ∀ front rest, t = front ++ sep :: rest → d + bracketDepth before front ≠ 0 := by
  induction t generalizing before d with
  | nil =>
    refine ⟨fun _ front rest heq => ?_, fun _ => rfl⟩
    exact absurd heq (by simp)
  | cons c rest ih =>
    have hpos : 0 < (cut (· = sep) (some c) (d + bracketWeight before c) rest).length :=
      List.length_pos_of_ne_nil (cut_ne_nil _ _ _ _)
    rw [length_cut_cons]
    by_cases hhere : bracketWeight before c = 0 ∧ decide (c = sep) = true ∧ d = 0
    · rw [if_pos hhere]
      obtain ⟨-, hc, hd⟩ := hhere
      refine ⟨fun hone => by omega, fun hnone => ?_⟩
      refine absurd ?_ (hnone [] rest (by rw [of_decide_eq_true hc, List.nil_append]))
      rw [bracketDepth, hd]
      rfl
    · rw [if_neg hhere, Nat.add_zero, ih]
      constructor
      · rintro hrest (_ | ⟨b, front⟩) more heq hzero
        · obtain ⟨rfl, -⟩ := List.cons.inj heq
          rw [bracketDepth, Int.add_zero] at hzero
          exact hhere ⟨hsep before, decide_eq_true rfl, hzero⟩
        · obtain ⟨rfl, hmore⟩ := List.cons.inj heq
          rw [bracketDepth, ← Int.add_assoc] at hzero
          exact hrest front more hmore hzero
      · intro hall front more heq hzero
        rw [Int.add_assoc] at hzero
        exact hall (c :: front) more (by rw [heq, List.cons_append]) hzero

theorem length_cut_eq_one (h : sep ∈ "|&,".toList) :
    (cut (· = sep) none 0 t).length = 1 ↔ ¬StandsOpen sep t := by
  rw [length_cut_eq_one_iff (bracketWeight_separator h)]
  constructor
  · rintro hnone ⟨front, rest, heq, hdepth⟩
    exact hnone front rest heq (by rw [hdepth]; rfl)
  · intro hnone front rest heq hdepth
    rw [Int.zero_add] at hdepth
    exact hnone ⟨front, rest, heq, hdepth⟩

theorem cut_eq_singleton (h : (cut (· = sep) before d t).length = 1) :
    cut (· = sep) before d t = [t] := by
  obtain ⟨piece, hpiece⟩ := List.length_eq_one_iff.1 h
  have hjoin := join_cut sep before d t
  rw [hpiece, Text.join_singleton] at hjoin
  rw [hpiece, hjoin]

theorem splitTopLevel_eq_singleton_iff (h : sep ∈ "|&,".toList) (ht : Text.Trimmed t) :
    splitTopLevel sep t = [t] ↔ ¬StandsOpen sep t := by
  rw [← length_cut_eq_one h]
  constructor
  · intro hone
    have hlength := congrArg List.length hone
    rwa [splitTopLevel, splitTopLevelBy, List.length_map] at hlength
  · intro hone
    rw [splitTopLevel, splitTopLevelBy, cut_eq_singleton hone, List.map_singleton, ht.trim_eq]

theorem needsParens_eq_false_iff :
    needsParens t = false ↔ ¬StandsOpen '|' t ∧ ¬StandsOpen '&' t := by
  have hpos : ∀ sep : Char, 0 < (cut (· = sep) none 0 t).length :=
    fun sep => List.length_pos_of_ne_nil (cut_ne_nil _ _ _ _)
  have hunion := hpos '|'
  have hboth := hpos '&'
  rw [← length_cut_eq_one (by decide), ← length_cut_eq_one (by decide), needsParens, splitTopLevel,
    splitTopLevel, splitTopLevelBy, splitTopLevelBy, List.length_map, List.length_map,
    Bool.or_eq_false_iff, decide_eq_false_iff_not, decide_eq_false_iff_not]
  omega

end NestClient.TypeText
