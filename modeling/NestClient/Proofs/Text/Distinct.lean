import Mathlib.Data.List.Induction
import NestClient.Text.Basic

/-! `distinct` keeps each element once; elements that are told apart. -/

namespace NestClient.Text

variable {α : Type} [BEq α] [LawfulBEq α]

/-- One step of `distinct`. -/
def keepNew (seen : List α) (a : α) : List α := if seen.contains a then seen else seen ++ [a]

theorem mem_keepNew {seen : List α} {a b : α} : b ∈ keepNew seen a ↔ b ∈ seen ∨ b = a := by
  unfold keepNew
  split
  · next h =>
    rw [List.contains_iff_mem] at h
    constructor
    · exact .inl
    · rintro (hb | rfl)
      · exact hb
      · exact h
  · simp

theorem nodup_keepNew {seen : List α} (h : seen.Nodup) (a : α) : (keepNew seen a).Nodup := by
  unfold keepNew
  split
  · exact h
  · next hnew =>
    rw [List.contains_iff_mem] at hnew
    exact List.nodup_append.2 ⟨h, by simp, fun b hb c hc hbc => by simp_all⟩

theorem mem_foldl_keepNew (items : List α) {seen : List α} {b : α} :
    b ∈ items.foldl keepNew seen ↔ b ∈ seen ∨ b ∈ items := by
  induction items generalizing seen with
  | nil => simp
  | cons a items ih => rw [List.foldl_cons, ih, mem_keepNew, List.mem_cons, or_assoc]

theorem nodup_foldl_keepNew (items : List α) {seen : List α} (h : seen.Nodup) :
    (items.foldl keepNew seen).Nodup := by
  induction items generalizing seen with
  | nil => exact h
  | cons a items ih => exact ih (nodup_keepNew h a)

theorem mem_distinct {items : List α} {a : α} : a ∈ distinct items ↔ a ∈ items := by
  change a ∈ items.foldl keepNew [] ↔ a ∈ items
  rw [mem_foldl_keepNew]
  simp

theorem nodup_distinct (items : List α) : (distinct items).Nodup :=
  nodup_foldl_keepNew items List.nodup_nil

theorem count_distinct {items : List α} {a : α} (h : a ∈ items) : (distinct items).count a = 1 := by
  rw [(nodup_distinct items).count, if_pos (mem_distinct.2 h)]

omit [LawfulBEq α] in
theorem distinct_concat (items : List α) (a : α) :
    distinct (items ++ [a]) = keepNew (distinct items) a := by
  change (items ++ [a]).foldl keepNew [] = keepNew (items.foldl keepNew []) a
  rw [List.foldl_append]
  rfl

/-- The elements stay in the order in which they come first. -/
theorem pairwise_distinct (items : List α) :
    (distinct items).Pairwise fun a b => items.idxOf a < items.idxOf b := by
  induction items using List.reverseRecOn with
  | nil => exact List.Pairwise.nil
  | append_singleton items a ih =>
    have hold : (distinct items).Pairwise fun b c =>
        (items ++ [a]).idxOf b < (items ++ [a]).idxOf c := by
      refine ih.imp_of_mem fun hb hc hlt => ?_
      rw [List.idxOf_append, List.idxOf_append, if_pos (mem_distinct.1 hb),
        if_pos (mem_distinct.1 hc)]
      exact hlt
    rw [distinct_concat, keepNew]
    split
    · exact hold
    next hnew =>
      rw [List.contains_iff_mem, mem_distinct] at hnew
      refine List.pairwise_append.2 ⟨hold, List.pairwise_singleton _ _, fun b hb c hc => ?_⟩
      obtain rfl := List.mem_singleton.1 hc
      have hbefore : items.idxOf b < items.length := List.idxOf_lt_length_of_mem (mem_distinct.1 hb)
      rw [List.idxOf_append, List.idxOf_append, if_pos (mem_distinct.1 hb), if_neg hnew]
      omega

/-- Elements that one function tells apart are told apart by another one that tells as much. -/
theorem nodup_map_of_nodup_map {β γ δ : Type} {items : List β} {f : β → γ} {g : β → δ}
    (h : ∀ a ∈ items, ∀ b ∈ items, g a = g b → f a = f b) (hf : (items.map f).Nodup) :
    (items.map g).Nodup := by
  rw [List.Nodup, List.pairwise_map] at hf ⊢
  exact hf.imp_of_mem fun ha hb hne heq => hne (h _ ha _ hb heq)

end NestClient.Text
