import NestClient.Proofs.TypeText.Arrays
import NestClient.Proofs.TypeText.Reference
import NestClient.TypeText.Resolve

/-! The wrapper of a deferred result does not reach the client type: any number of layers around a
balanced text goes away, and what the text is rewritten to is no wrapper either.

* `unwrap?_undefer`: all layers are taken off.
* `undefer_deferTimes`: layers around a text do not matter.
* `resolve_erases_deferred`: the same for the resolved type. -/

namespace NestClient.TypeText

variable {t inner : Text}

/-! ## One layer -/

/-- The type of a value that comes later, written out. -/
def deferredOf (t : Text) : Text := deferred ++ '<' :: (t ++ ['>'])

def deferTimes : Nat → Text → Text
  | 0, t => t
  | k + 1, t => deferredOf (deferTimes k t)

theorem trimmed_deferredOf (t : Text) : Text.Trimmed (deferredOf t) := by
  constructor
  · rintro c ⟨⟩
    decide
  · intro c hc
    rw [deferredOf, ← List.cons_append, ← List.append_assoc, List.getLast?_concat] at hc
    obtain rfl : '>' = c := Option.some.inj hc
    decide

theorem unwrap?_deferredOf (h : Wrappable t) : unwrap? deferred (deferredOf t) = some (Text.trim t) :=
  unwrap?_eq_some_iff.2 ⟨t, (trimmed_deferredOf t).trim_eq, h, rfl⟩

theorem wrappable_deferredOf (h : Wrappable t) : Wrappable (deferredOf t) := by
  have hword : angleDepth none deferred = 0 := by decide
  have hcloses := closesLast_concat_iff.2 h
  have hlast : (deferredOf t).getLast? ≠ some '=' := by
    rw [deferredOf, ← List.cons_append, ← List.append_assoc, List.getLast?_concat]
    decide
  refine ⟨angleBalanced_iff.2 ⟨?_, ?_⟩, hlast⟩
  · rw [deferredOf, staysOpen_append, hword, staysOpen_cons]
    refine ⟨staysOpen_of_not_mem (by decide) (by decide), by decide, fun lead hl => ?_⟩
    rw [angleDepth_of_ne (by decide)]
    change 1 ≤ 1 + 0 + 1 + angleDepth none lead
    by_cases hwhole : lead = t ++ ['>']
    · rw [hwhole]
      have := hcloses.total
      omega
    · have := hcloses.isOpen lead hl hwhole
      omega
  · rw [deferredOf, angleDepth_append, angleDepth, hword, angleDepth_of_ne (by decide)]
    exact (Int.zero_add _).trans hcloses.total

theorem wrappable_deferTimes (h : Wrappable t) (k : Nat) : Wrappable (deferTimes k t) := by
  induction k with
  | zero => exact h
  | succ k ih => exact wrappable_deferredOf ih

/-! ## All layers -/

theorem length_lt_of_unwrap? {wrapper : Text} (h : unwrap? wrapper t = some inner) :
    inner.length < t.length := by
  obtain ⟨inside, ht, -, rfl⟩ := unwrap?_eq_some_iff.1 h
  have hinside := Text.length_trim_le inside
  have hwhole := Text.length_trim_le t
  rw [ht, List.length_append, List.length_cons, List.length_append, List.length_singleton] at hwhole
  omega

/-- The bound on the layers does not matter once it reaches the length of the text. -/
theorem undeferUpTo_eq {m n : Nat} (hm : t.length ≤ m) (hn : t.length ≤ n) :
    undeferUpTo m t = undeferUpTo n t := by
  induction m generalizing t n with
  | zero =>
    obtain rfl : t = [] := List.length_eq_zero_iff.1 (by omega)
    cases n <;> rfl
  | succ m ih =>
    cases n with
    | zero =>
      obtain rfl : t = [] := List.length_eq_zero_iff.1 (by omega)
      rfl
    | succ n =>
      rw [undeferUpTo, undeferUpTo]
      cases hinner : unwrap? deferred t with
      | none => rfl
      | some inner =>
        have hlt := length_lt_of_unwrap? hinner
        exact ih (by omega) (by omega)

theorem undefer_eq (t : Text) :
    undefer t = match unwrap? deferred t with
      | some inner => undefer inner
      | none => t := by
  cases hinner : unwrap? deferred t with
  | none =>
    rw [undefer]
    cases t.length with
    | zero => rfl
    | succ n => rw [undeferUpTo, hinner]
  | some inner =>
    have hlt := length_lt_of_unwrap? hinner
    obtain ⟨n, hn⟩ : ∃ n, t.length = n + 1 := ⟨t.length - 1, by omega⟩
    rw [undefer, hn, undeferUpTo, hinner]
    exact undeferUpTo_eq (by omega) (Nat.le_refl _)

/-- What holds of the text, and goes over from a wrapper to what it wraps, holds without the layers. -/
theorem undefer_induction {motive : Text → Prop}
    (layer : ∀ t inner, unwrap? deferred t = some inner → motive t → motive inner) (h : motive t) :
    motive (undefer t) := by
  induction hn : t.length using Nat.strongRecOn generalizing t with
  | ind n ih =>
    rw [undefer_eq]
    cases hinner : unwrap? deferred t with
    | none => exact h
    | some inner =>
      have hlt := length_lt_of_unwrap? hinner
      exact ih inner.length (by omega) (layer t inner hinner h) rfl

theorem unwrap?_undefer (t : Text) : unwrap? deferred (undefer t) = none := by
  induction hn : t.length using Nat.strongRecOn generalizing t with
  | ind n ih =>
    rw [undefer_eq]
    cases hinner : unwrap? deferred t with
    | none => exact hinner
    | some inner =>
      have hlt := length_lt_of_unwrap? hinner
      exact ih inner.length (by omega) inner rfl

theorem trimmed_undefer (h : Text.Trimmed t) : Text.Trimmed (undefer t) := by
  refine undefer_induction (fun t inner hinner _ => ?_) h
  obtain ⟨inside, -, -, rfl⟩ := unwrap?_eq_some_iff.1 hinner
  exact Text.trimmed_trim inside

/-- The layers around a text, however many, go away with those of the text itself. -/
theorem undefer_deferTimes (h : Wrappable t) (k : Nat) :
    undefer (Text.trim (deferTimes k t)) = undefer (Text.trim t) := by
  induction k with
  | zero => rfl
  | succ k ih =>
    rw [deferTimes, (trimmed_deferredOf _).trim_eq, undefer_eq,
      unwrap?_deferredOf (wrappable_deferTimes h k)]
    exact ih

theorem trim_deferTimes_ne_nil (h : Text.trim t ≠ []) (k : Nat) : Text.trim (deferTimes k t) ≠ [] := by
  cases k with
  | zero => exact h
  | succ k =>
    rw [deferTimes, (trimmed_deferredOf _).trim_eq, deferredOf]
    simp

/-- Taking layers off neither adds a reference to a module nor takes one away. -/
theorem infix_undefer : importOpen <:+: undefer t ↔ importOpen <:+: t := by
  refine undefer_induction (motive := fun s => importOpen <:+: s ↔ importOpen <:+: t) ?_ Iff.rfl
  intro s inner hinner hs
  obtain ⟨inside, htrim, -, rfl⟩ := unwrap?_eq_some_iff.1 hinner
  have hword : ¬importOpen <:+: deferred := by decide
  have hempty : ¬importOpen <:+: [] := by decide
  rw [← hs, infix_importOpen_trim, ← infix_importOpen_trim (t := s), htrim,
    Text.infix_append_cons (by decide), Text.infix_append_cons (by decide)]
  simp only [hword, hempty, false_or, or_false]

/-! ## The resolved type -/

namespace Resolver

theorem resolve_eq (r : Resolver) (h : Text.trim t ≠ []) (available : List Text) :
    r.resolve t available = r.resolveValue (bracketArrays (undefer (Text.trim t))) available := by
  unfold resolve
  dsimp only
  rw [if_neg (by simpa using h)]

theorem resolve_of_blank (r : Resolver) (h : Text.trim t = []) (available : List Text) :
    r.resolve t available = .any := by
  unfold resolve
  dsimp only
  rw [if_pos (by rw [h]; rfl)]

/-- A type that refers to no module stays as it is, or says nothing. -/
theorem expression_resolveLocal (r : Resolver) (t : Text) (available : List Text) :
    (r.resolveLocal t available).expression = t ∨ r.resolveLocal t available = .any := by
  have hsymbol : ∀ symbol, (withSymbol t symbol available).expression = t := by
    rintro (_ | symbol) <;> rfl
  unfold resolveLocal
  split
  · exact .inl (hsymbol _)
  · split
    · exact .inl (hsymbol _)
    · split
      · exact .inr rfl
      · exact .inl rfl

theorem resolveValue_of_not_infix (r : Resolver) (h : ¬importOpen <:+: t) (available : List Text) :
    r.resolveValue t available = r.resolveLocal t available := by
  have hoccurs : Text.occurs "import(".toList t = false := Text.occurs_eq_false_iff.2 h
  unfold resolveValue
  rw [references_eq_nil h, hoccurs]
  rfl

/-- However many layers of the deferred wrapper stand around a type, it is resolved as it is without
them; and where it refers to no module, what it is resolved to is no deferred type. -/
theorem resolve_erases_deferred (r : Resolver) (available : List Text) :
    (∀ (k : Nat) (t : Text), Text.trim t ≠ [] → AngleBalanced t → t.getLast? ≠ some '=' →
      r.resolve (deferTimes k t) available = r.resolve t available) ∧
    ∀ t : Text, Text.occurs "import(".toList t = false →
      unwrap? deferred (r.resolve t available).expression = none := by
  constructor
  · intro k t hne hbalanced hlast
    rw [r.resolve_eq (trim_deferTimes_ne_nil hne k), r.resolve_eq hne,
      undefer_deferTimes ⟨hbalanced, hlast⟩]
  · intro t hoccurs
    have hany : unwrap? deferred ResolvedType.any.expression = none := by decide
    by_cases hne : Text.trim t = []
    · rw [r.resolve_of_blank hne]
      exact hany
    · have hnot : ¬importOpen <:+: bracketArrays (undefer (Text.trim t)) := by
        rw [infix_bracketArrays, infix_undefer, infix_importOpen_trim]
        exact Text.occurs_eq_false_iff.1 hoccurs
      rw [r.resolve_eq hne, r.resolveValue_of_not_infix hnot]
      rcases r.expression_resolveLocal (bracketArrays (undefer (Text.trim t))) available with h | h
      · rw [h]
        exact unwrap?_bracketArrays (List.all_eq_true.1 (by decide))
          (trimmed_undefer (Text.trimmed_trim t)) (unwrap?_undefer _)
      · rw [h]
        exact hany

theorem resolve_erases_deferred_twice :
    let r : Resolver := { isShared := (· == "@shared".toList) }
    let t := " Array<() => Promise<Foo>>".toList
    deferTimes 2 t = "Promise<Promise< Array<() => Promise<Foo>>>>".toList ∧
      (Text.trim t ≠ [] ∧ AngleBalanced t ∧ t.getLast? ≠ some '=') ∧
      r.resolve (deferTimes 2 t) ["Foo".toList] = r.resolve t ["Foo".toList] ∧
      Text.occurs "import(".toList t = false ∧
      unwrap? deferred (r.resolve t ["Foo".toList]).expression = none := by
  intro r t
  obtain ⟨hlayers, hnone⟩ := r.resolve_erases_deferred ["Foo".toList]
  have hne : Text.trim t ≠ [] := by decide
  have hbalanced : AngleBalanced t := by decide
  have hlast : t.getLast? ≠ some '=' := by decide
  have hoccurs : Text.occurs "import(".toList t = false := by decide
  exact ⟨by decide, ⟨hne, hbalanced, hlast⟩, hlayers 2 t hne hbalanced hlast, hoccurs, hnone t hoccurs⟩

end Resolver

end NestClient.TypeText
