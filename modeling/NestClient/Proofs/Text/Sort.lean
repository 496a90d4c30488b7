import Mathlib.Data.Char
import Mathlib.Data.List.Lex
import NestClient.Text.Basic

/-! Sorting keeps the elements and puts them in order. In an order that no two elements share a rank
of, the result depends on the elements only. The order of texts is such a one. -/

namespace NestClient.Text

variable {α : Type} {before : α → α → Bool}

theorem insertBy_perm (a : α) (items : List α) : (insertBy before a items).Perm (a :: items) := by
  induction items with
  | nil => exact .rfl
  | cons b rest ih =>
    rw [insertBy]
    split
    · exact .rfl
    · exact (ih.cons b).trans (.swap a b rest)

theorem sortBy_perm (items : List α) : (sortBy before items).Perm items := by
  induction items with
  | nil => exact .rfl
  | cons a items ih => exact (insertBy_perm a _).trans (ih.cons a)

theorem mem_sortBy {a : α} {items : List α} : a ∈ sortBy before items ↔ a ∈ items :=
  (sortBy_perm items).mem_iff

theorem pairwise_insertBy (trans : ∀ a b c, before a b → before b c → before a c)
    (total : ∀ a b, before a b || before b a) {a : α} {items : List α}
    (h : items.Pairwise fun a b => before a b) :
    (insertBy before a items).Pairwise fun a b => before a b := by
  induction items with
  | nil => exact List.pairwise_singleton _ a
  | cons b rest ih =>
    rw [List.pairwise_cons] at h
    rw [insertBy]
    split
    · next hab =>
      refine List.pairwise_cons.2 ⟨?_, List.pairwise_cons.2 h⟩
      intro c hc
      rcases List.mem_cons.1 hc with rfl | hc
      · exact hab
      · exact trans a b c hab (h.1 c hc)
    · next hab =>
      have hba : before b a = true := by
        have ht := total a b
        rw [Bool.or_eq_true] at ht
        exact ht.resolve_left hab
      refine List.pairwise_cons.2 ⟨?_, ih h.2⟩
      intro c hc
      rcases List.mem_cons.1 ((insertBy_perm a rest).mem_iff.1 hc) with rfl | hc
      · exact hba
      · exact h.1 c hc

theorem pairwise_sortBy (trans : ∀ a b c, before a b → before b c → before a c)
    (total : ∀ a b, before a b || before b a) (items : List α) :
    (sortBy before items).Pairwise fun a b => before a b := by
  induction items with
  | nil => exact .nil
  | cons a items ih => exact pairwise_insertBy trans total ih

/-- Lists with the same elements are sorted alike, if no two of these can stand in either order. -/
theorem sortBy_eq_of_perm (trans : ∀ a b c, before a b → before b c → before a c)
    (total : ∀ a b, before a b || before b a) {s t : List α}
    (antisymm : ∀ a ∈ s, ∀ b ∈ s, before a b → before b a → a = b) (h : s.Perm t) :
    sortBy before s = sortBy before t := by
  have hperm : (sortBy before s).Perm (sortBy before t) :=
    (sortBy_perm s).trans (h.trans (sortBy_perm t).symm)
  refine hperm.eq_of_pairwise ?_ (pairwise_sortBy trans total s) (pairwise_sortBy trans total t)
  intro a b ha hb hab hba
  have hbs : b ∈ s := h.mem_iff.2 (mem_sortBy.1 hb)
  exact antisymm a (mem_sortBy.1 ha) b hbs hab hba

/-! ## The order of texts -/

theorem le_trans {a b c : Text} (hab : le a b = true) (hbc : le b c = true) : le a c = true := by
  induction a generalizing b c with
  | nil => rfl
  | cons x a ih =>
    cases b with
    | nil => simp [le] at hab
    | cons y b =>
      cases c with
      | nil => simp [le] at hbc
      | cons z c =>
        simp only [le, Bool.or_eq_true, Bool.and_eq_true, decide_eq_true_eq] at hab hbc ⊢
        rcases hab with hxy | ⟨rfl, hab⟩
        · rcases hbc with hyz | ⟨rfl, -⟩
          · exact .inl (Char.lt_trans hxy hyz)
          · exact .inl hxy
        · rcases hbc with hyz | ⟨rfl, hbc⟩
          · exact .inl hyz
          · exact .inr ⟨rfl, ih hab hbc⟩

theorem le_total (a b : Text) : (le a b || le b a) = true := by
  induction a generalizing b with
  | nil => rfl
  | cons x a ih =>
    cases b with
    | nil => rfl
    | cons y b =>
      have hab := ih b
      simp only [le, Bool.or_eq_true, Bool.and_eq_true, decide_eq_true_eq] at hab ⊢
      by_cases hxy : x < y
      · exact .inl (.inl hxy)
      · by_cases hyx : y < x
        · exact .inr (.inl hyx)
        · have heq : x = y := Char.le_antisymm (Char.not_lt.1 hyx) (Char.not_lt.1 hxy)
          rcases hab with hab | hab
          · exact .inl (.inr ⟨heq, hab⟩)
          · exact .inr (.inr ⟨heq.symm, hab⟩)

theorem le_antisymm {a b : Text} (hab : le a b = true) (hba : le b a = true) : a = b := by
  induction a generalizing b with
  | nil =>
    cases b with
    | nil => rfl
    | cons y b => simp [le] at hba
  | cons x a ih =>
    cases b with
    | nil => simp [le] at hab
    | cons y b =>
      simp only [le, Bool.or_eq_true, Bool.and_eq_true, decide_eq_true_eq] at hab hba
      rcases hab with hxy | ⟨rfl, hab⟩
      · rcases hba with hyx | ⟨rfl, -⟩
        · exact absurd (Char.lt_trans hxy hyx) (Char.lt_irrefl x)
        · exact absurd hxy (Char.lt_irrefl _)
      · rcases hba with hxx | ⟨-, hba⟩
        · exact absurd hxx (Char.lt_irrefl x)
        · rw [ih hab hba]

theorem le_iff {s t : Text} : le s t = true ↔ s ≤ t := by
  induction s generalizing t with
  | nil => cases t <;> simp [le, le_iff_lt_or_eq]
  | cons a s ih =>
    cases t with
    | nil => simp [le, le_iff_lt_or_eq]
    | cons b t =>
      rw [le, Bool.or_eq_true, Bool.and_eq_true, decide_eq_true_eq, decide_eq_true_eq, ih,
        le_iff_lt_or_eq, le_iff_lt_or_eq, List.cons_lt_cons_iff, List.cons.injEq, and_or_left, or_assoc]

end NestClient.Text
