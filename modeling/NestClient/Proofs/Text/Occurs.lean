import NestClient.Proofs.Text.Trim

/-! Where a text can occur in another one that is put together: not across a character that it does not
hold, nor across an end at which it cannot be cut. -/

namespace NestClient.Text

variable {needle s t : Text}

theorem occurs_iff_infix : occurs needle t = true ↔ needle <:+: t := by
  induction t with
  | nil => rw [occurs, List.isEmpty_iff, List.infix_nil]
  | cons c rest ih => rw [occurs, Bool.or_eq_true, List.isPrefixOf_iff_prefix, ih, List.infix_cons_iff]

theorem occurs_eq_false_iff : occurs needle t = false ↔ ¬needle <:+: t := by
  rw [← occurs_iff_infix, Bool.not_eq_true]

theorem infix_append_cons {c : Char} (hc : c ∉ needle) :
    needle <:+: s ++ c :: t ↔ needle <:+: s ∨ needle <:+: t := by
  constructor
  · rintro ⟨before, after, h⟩
    rw [List.append_assoc] at h
    rcases cons_append_cases hc h with ⟨between, -, hs⟩ | ⟨between, -, ht⟩
    · exact .inl ⟨before, between, by rw [hs, List.append_assoc]⟩
    · exact .inr ⟨between, after, by rw [ht, List.append_assoc]⟩
  · rintro (h | h)
    · exact h.trans (List.prefix_append s (c :: t)).isInfix
    · exact (h.trans (List.suffix_cons c t).isInfix).trans (List.suffix_append s (c :: t)).isInfix

/-- No occurrence lies across a place in front of which stands a character that it could only end with. -/
theorem infix_append (h : ∀ c, s.getLast? = some c → c ∉ needle.dropLast) :
    needle <:+: s ++ t ↔ needle <:+: s ∨ needle <:+: t := by
  constructor
  · rintro ⟨before, after, heq⟩
    rw [List.append_assoc] at heq
    rcases List.append_eq_append_iff.1 heq with ⟨more, hs, hmore⟩ | ⟨more, -, ht⟩
    · rcases List.append_eq_append_iff.1 hmore with ⟨rest, hr, -⟩ | ⟨rest, hn, ht⟩
      · exact .inl ⟨before, rest, by rw [hs, hr, List.append_assoc]⟩
      · rcases List.eq_nil_or_concat more with rfl | ⟨front, c, rfl⟩
        · exact .inr ⟨[], after, by rw [ht, hn]; rfl⟩
        · cases rest with
          | nil => exact .inl ⟨before, [], by rw [hs, hn]; simp⟩
          | cons d rest =>
            refine absurd ?_ (h c (by rw [hs]; simp))
            rw [hn, List.dropLast_append_of_ne_nil (by simp)]
            simp
    · exact .inr ⟨more, after, by rw [ht, List.append_assoc]⟩
  · rintro (h | h)
    · exact h.trans (List.prefix_append s t).isInfix
    · exact h.trans (List.suffix_append s t).isInfix

/-- Trimming takes no occurrence of a text that holds no blank at its ends. -/
theorem infix_trim (hne : needle ≠ []) (h : Trimmed needle) : needle <:+: trim t ↔ needle <:+: t := by
  constructor
  · intro hin
    obtain ⟨lead, tail, ht, -⟩ := exists_trim t
    rw [ht]
    exact hin.trans ⟨lead, tail, by rw [List.append_assoc]⟩
  · rintro ⟨before, after, rfl⟩
    obtain ⟨lead, tail, ht, -⟩ := trim_append hne h.head h.last before after
    exact ⟨lead, tail, by rw [List.append_assoc lead, List.append_assoc before, ht]⟩

end NestClient.Text
