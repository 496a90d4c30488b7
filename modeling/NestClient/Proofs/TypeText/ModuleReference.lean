import NestClient.Proofs.TypeText.Resolve

/-! Which references to modules reach the client type. A reference to a module that is not shared leaves
nothing but `any`, and so does any other mention of a module in a text without shared references. Where
there are some, the mentions that remain beside their symbols are looked at as references only: what
does not name a symbol is not seen.

* `references_shown_ne_nil`: a reference to another module stays among the symbols.
* `resolve_module_references`: what is resolved to `any`, and what keeps a mention of a module. -/

namespace NestClient.TypeText

variable {t : Text}

/-- The text of a type as its references are looked for in it. -/
def rewritten (t : Text) : Text := bracketArrays (undefer (Text.trim t))

theorem infix_rewritten : importOpen <:+: rewritten t ↔ importOpen <:+: t := by
  rw [rewritten, infix_bracketArrays, infix_undefer, infix_importOpen_trim]

theorem rewritten_of_trim (h : Text.trim t = []) : rewritten t = [] := by
  rw [rewritten, h]
  exact bracketArrays_nil

namespace Resolver

/-- The text refers to a type that is shared. -/
def RefersToShared (r : Resolver) (t : Text) : Prop := ∃ ref ∈ references t, r.isShared ref.module = true

instance (r : Resolver) (t : Text) : Decidable (r.RefersToShared t) :=
  inferInstanceAs (Decidable (∃ ref ∈ references t, r.isShared ref.module = true))

/-! ## What stays beside the symbols -/

/-- What a reference among the pieces is shown as begins a text that is shown. -/
theorem exists_suffix_shown (r : Resolver) {ref : Reference} (h : ref ∈ references t) :
    ∃ written after, IsReference written ref.module ref.symbol ∧ EndsName after ∧
      r.showPiece (.reference ⟨ref.module, ref.symbol, written⟩) ++ r.shown after <:+ r.shown t := by
  induction hn : t.length using Nat.strongRecOn generalizing t with
  | ind n ih =>
    cases t with
    | nil => simp [references, pieces_nil] at h
    | cons c rest =>
      cases hread : readReference? (c :: rest) with
      | none =>
        rw [references, pieces_char hread] at h
        obtain ⟨written, after, hw, hafter, hsuffix⟩ := ih rest.length (by simp at hn; omega) h rfl
        refine ⟨written, after, hw, hafter, hsuffix.trans ?_⟩
        rw [shown, shown, pieces_char hread]
        exact List.suffix_cons c _
      | some found =>
        obtain ⟨module, symbol, after⟩ := found
        have hlt := length_lt_of_readReference? hread
        obtain ⟨written, hw, ht, hafter⟩ := readReference?_eq_some_iff.1 hread
        have hshown : r.shown (c :: rest)
            = r.showPiece (.reference ⟨module, symbol, written⟩) ++ r.shown after := by
          rw [ht, shown, pieces_read hw hafter]
          rfl
        rw [ht, references, pieces_read hw hafter] at h
        rcases List.mem_cons.1 h with rfl | h
        · exact ⟨written, after, hw, hafter, hshown ▸ List.suffix_rfl⟩
        · obtain ⟨written', after', hw', hafter', hsuffix⟩ := ih after.length (by omega) h rfl
          exact ⟨written', after', hw', hafter', hshown ▸ hsuffix.trans (List.suffix_append _ _)⟩

/-- A reference to a module that is not shared is still one beside the symbols of the shared ones. -/
theorem references_shown_ne_nil (r : Resolver) {ref : Reference} (h : ref ∈ references t)
    (hforeign : r.isShared ref.module = false) : references (r.shown t) ≠ [] := by
  intro hnone
  obtain ⟨written, after, hw, hafter, hsuffix⟩ := r.exists_suffix_shown h
  have hread := readReference?_append hw (r.endsName_shown hafter)
  rw [showPiece, if_neg (by simp [hforeign])] at hsuffix
  rw [readReference?_of_references hnone hsuffix] at hread
  simp at hread

/-! ## The resolved type -/

theorem resolveValue_of_shared (r : Resolver) (h : r.RefersToShared t) (available : List Text) :
    r.resolveValue t available = .any ∧ references (r.shown t) ≠ [] ∨
      (r.resolveValue t available).expression = r.shown t ∧ references (r.shown t) = [] := by
  have hsome : (!((references t).filter fun ref => r.isShared ref.module).isEmpty) = true := by
    obtain ⟨ref, href, hshared⟩ := h
    rw [Bool.not_eq_true', List.isEmpty_eq_false_iff]
    exact List.ne_nil_of_mem (List.mem_filter.2 ⟨href, hshared⟩)
  unfold resolveValue
  dsimp only
  rw [if_pos hsome]
  split
  next hne => exact .inl ⟨rfl, by simpa [shown] using hne⟩
  next hnil => exact .inr ⟨rfl, by simpa [shown] using hnil⟩

/-- Without shared references any mention of a module leaves nothing but `any`. -/
theorem resolveValue_of_not_shared (r : Resolver) (h : ¬r.RefersToShared t) (hin : importOpen <:+: t)
    (available : List Text) : r.resolveValue t available = .any := by
  have hnone : ((references t).filter fun ref => r.isShared ref.module) = [] :=
    List.filter_eq_nil_iff.2 fun ref href hshared => h ⟨ref, href, hshared⟩
  have hoccurs : Text.occurs "import(".toList t = true := Text.occurs_iff_infix.2 hin
  unfold resolveValue
  dsimp only
  rw [hnone, hoccurs]
  simp

theorem not_infix_any : ¬importOpen <:+: ResolvedType.any.expression := by decide

theorem infix_expression_resolveValue (r : Resolver) (t : Text) (available : List Text) :
    importOpen <:+: (r.resolveValue t available).expression ↔
      r.RefersToShared t ∧ references (r.shown t) = [] ∧ importOpen <:+: r.shown t := by
  by_cases hshared : r.RefersToShared t
  · rcases r.resolveValue_of_shared hshared available with ⟨hany, hne⟩ | ⟨hshown, hnone⟩
    · rw [hany]
      exact ⟨fun h => absurd h not_infix_any, fun h => absurd h.2.1 hne⟩
    · rw [hshown]
      exact ⟨fun h => ⟨hshared, hnone, h⟩, fun h => h.2.2⟩
  · have hnot : ¬importOpen <:+: (r.resolveValue t available).expression := by
      by_cases hin : importOpen <:+: t
      · rw [r.resolveValue_of_not_shared hshared hin]
        exact not_infix_any
      · rw [r.resolveValue_of_not_infix hin]
        rcases r.expression_resolveLocal t available with h | h <;> rw [h]
        · exact hin
        · exact not_infix_any
    exact ⟨fun h => absurd h hnot, fun h => absurd h.1 hshared⟩

/-- A text that mentions a module is resolved to `any`, unless it refers to a shared type and no
reference is left beside the symbols of the shared ones; a reference to another module is left. The
client type mentions a module only in that case: where what is left is none that names a symbol. -/
theorem resolve_module_references (r : Resolver) (t : Text) (available : List Text) :
    (Text.occurs "import(".toList t = true →
      ¬(r.RefersToShared (rewritten t) ∧ references (r.shown (rewritten t)) = []) →
      r.resolve t available = .any) ∧
    ((∃ ref ∈ references (rewritten t), r.isShared ref.module = false) →
      r.resolve t available = .any) ∧
    (Text.occurs "import(".toList (r.resolve t available).expression = true ↔
      r.RefersToShared (rewritten t) ∧ references (r.shown (rewritten t)) = [] ∧
        Text.occurs "import(".toList (r.shown (rewritten t)) = true) := by
  rw [Text.occurs_iff_infix, Text.occurs_iff_infix, Text.occurs_iff_infix]
  by_cases hne : Text.trim t = []
  · rw [r.resolve_of_blank hne, rewritten_of_trim hne]
    refine ⟨fun _ _ => rfl, fun _ => rfl, fun h => absurd h not_infix_any, fun h => ?_⟩
    obtain ⟨⟨ref, href, -⟩, -⟩ := h
    simp [references, pieces_nil] at href
  · have hresolve : r.resolve t available = r.resolveValue (rewritten t) available :=
      r.resolve_eq hne available
    rw [hresolve]
    refine ⟨?_, ?_, r.infix_expression_resolveValue (rewritten t) available⟩
    · intro hin hleft
      by_cases hshared : r.RefersToShared (rewritten t)
      · rcases r.resolveValue_of_shared hshared available with ⟨hany, -⟩ | ⟨-, hnone⟩
        · exact hany
        · exact absurd ⟨hshared, hnone⟩ hleft
      · exact r.resolveValue_of_not_shared hshared (infix_rewritten.2 hin) available
    · rintro ⟨ref, href, hforeign⟩
      by_cases hshared : r.RefersToShared (rewritten t)
      · rcases r.resolveValue_of_shared hshared available with ⟨hany, -⟩ | ⟨-, hnone⟩
        · exact hany
        · exact absurd hnone (r.references_shown_ne_nil href hforeign)
      · have hin : importOpen <:+: rewritten t := by
          by_contra hout
          rw [references_eq_nil hout] at href
          simp at href
        exact r.resolveValue_of_not_shared hshared hin available

theorem resolve_module_references_mixed :
    let r : Resolver := { isShared := (· == "@shared".toList) }
    r.resolve "import(\"@shared\").Foo | import(\"fs\").Stats".toList ["Foo".toList] = .any ∧
      r.resolve "typeof import(\"fs\")".toList ["Foo".toList] = .any ∧
      Text.occurs "import(".toList (r.resolve "import(\"@shared\").Foo | typeof import(\"fs\")".toList
        ["Foo".toList]).expression = true := by
  intro r
  have hsame : ∀ t : Text, undefer (Text.trim t) = t → arrayStart? none t = none → rewritten t = t := by
    intro t hundefer hstart
    rw [rewritten, hundefer, bracketArrays_of_arrayStart? hstart]
  refine ⟨?_, ?_, ?_⟩
  · refine (r.resolve_module_references _ _).2.1 ?_
    rw [hsame _ (by decide) (by decide)]
    exact ⟨⟨"fs".toList, "Stats".toList, "import(\"fs\").Stats".toList⟩, by decide, by decide⟩
  · refine (r.resolve_module_references _ _).1 (by decide) ?_
    rw [hsame _ (by decide) (by decide)]
    decide
  · refine (r.resolve_module_references _ _).2.2.2 ?_
    rw [hsame _ (by decide) (by decide)]
    decide

end Resolver

end NestClient.TypeText
