import NestClient.Proofs.TypeText.Deferred
import NestClient.TypeText.Missing

/-! A reference in the text of a type stays in it while the text is rewritten: when it is trimmed, when
the missing value is taken out of it, when the wrappers of a deferred result go away, and when array
types get their brackets.

* `Stands`: a reference with nothing behind it that would belong to it.
* `Stands.stripMissing`, `Stands.undefer`, `Stands.bracketArrays`: the steps of the rewriting. -/

namespace NestClient

theorem not_isBlank_of_isNameChar {c : Char} (h : isNameChar c = true) : isBlank c = false := by
  have hrange := toNat_of_isNameChar h
  rw [Bool.eq_false_iff]
  intro hb
  simp only [isBlank, blankRanges, CodeRanges.contains, List.any_cons, List.any_nil, Bool.or_eq_true,
    Bool.and_eq_true, decide_eq_true_eq, Bool.false_eq_true, or_false] at hb
  omega

namespace TypeText

open TypeScript (reference)

variable {module symbol : Text}

/-! ## The characters of a reference -/

theorem reference_ne_nil (module symbol : Text) : reference module symbol ≠ [] := by
  rw [reference_eq, import_eq]
  simp

theorem not_isBlank_head?_reference {c : Char} (h : (reference module symbol).head? = some c) :
    isBlank c = false := by
  rw [reference_eq, import_eq, List.cons_append, List.head?_cons, Option.some.injEq] at h
  rw [← h]
  decide

theorem exists_reference_eq_append (module symbol : Text) :
    ∃ lead, reference module symbol = lead ++ '.' :: symbol := by
  refine ⟨"import".toList ++ '(' :: '"' :: (module ++ ['"', ')']), ?_⟩
  rw [reference_eq, behindImport]
  simp only [List.append_assoc, List.cons_append, List.nil_append]

theorem isNameChar_getLast?_reference (hs : Text.isName symbol = true) {c : Char}
    (h : (reference module symbol).getLast? = some c) : isNameChar c = true := by
  obtain ⟨lead, hlead⟩ := exists_reference_eq_append module symbol
  obtain ⟨first, rest, rfl, -, -⟩ := Text.isName_iff.1 hs
  rw [hlead, List.getLast?_append, List.getLast?_cons_cons] at h
  cases hlast : (first :: rest).getLast? with
  | none => simp at hlast
  | some d =>
    rw [hlast] at h
    obtain rfl : d = c := Option.some.inj h
    exact isNameChar_of_mem_name hs (List.mem_of_getLast? hlast)

theorem not_mem_reference (hm : PlainModule module) (hs : Text.isName symbol = true) {c : Char}
    (hc : c ∈ ['<', '>', '|']) : c ∉ reference module symbol := by
  have hplain : c ∉ module := by
    intro h
    have hout := hm.plain c h
    rcases List.mem_cons.1 hc with rfl | hc
    · exact hout (by decide)
    · rcases List.mem_cons.1 hc with rfl | hc
      · exact hout (by decide)
      · rw [List.mem_singleton] at hc
        subst hc
        exact hout (by decide)
  have hsymbol : c ∉ symbol := by
    intro h
    have hname := isNameChar_of_mem_name hs h
    have hnone : ∀ d ∈ ['<', '>', '|'], (!isNameChar d) = true := List.all_eq_true.1 (by decide)
    have hout := hnone c hc
    rw [hname] at hout
    exact absurd hout (by decide)
  have hrest : ∀ d ∈ ['<', '>', '|'], d ∉ "import".toList ∧ d ∉ ['(', '"'] ∧ d ∉ ['"', ')', '.'] := by
    simp
  obtain ⟨h1, h2, h3⟩ := hrest c hc
  rw [reference_eq, behindImport]
  simp only [List.mem_append, List.mem_cons, List.not_mem_nil, or_false, not_or] at h1 h2 h3 ⊢
  exact ⟨h1, h2.1, h2.2, hplain, h3.1, h3.2.1, h3.2.2, hsymbol⟩

/-! ## A reference that stands in a text -/

/-- Behind the symbol no name goes on, and no arguments follow where they would be taken for those of
an array. -/
structure EndsType (symbol after : Text) : Prop where
  name : EndsName after
  array : isArrayName symbol = true → after.head? ≠ some '<'

/-- The reference stands in the text as a whole. -/
def Stands (module symbol t : Text) : Prop :=
  ∃ before after, t = before ++ (reference module symbol ++ after) ∧ EndsType symbol after

theorem endsType_nil (symbol : Text) : EndsType symbol [] := ⟨by rintro c ⟨⟩, by simp⟩

theorem EndsType.of_head? {after tail : Text} (h : EndsType symbol after)
    (hhead : tail.head? = after.head?) : EndsType symbol tail :=
  ⟨fun c hc => h.name c (hhead ▸ hc), fun ha => hhead ▸ h.array ha⟩

theorem EndsType.of_prefix {after tail : Text} (h : EndsType symbol after) (htail : tail <+: after) :
    EndsType symbol tail := by
  obtain ⟨more, rfl⟩ := htail
  cases tail with
  | nil => exact endsType_nil symbol
  | cons c tail => exact h.of_head? rfl

theorem endsType_cons {c : Char} (hc : isNameChar c = false) (hangle : c ≠ '<') (after : Text) :
    EndsType symbol (c :: after) := by
  refine ⟨?_, fun _ => by simpa using hangle⟩
  rintro d ⟨⟩
  exact hc

namespace Stands

variable {t : Text}

theorem mk {before after : Text} (h : EndsType symbol after) :
    Stands module symbol (before ++ (reference module symbol ++ after)) :=
  ⟨before, after, rfl, h⟩

theorem append (h : Stands module symbol t) (lead : Text) {tail : Text} (htail : EndsType symbol tail) :
    Stands module symbol (lead ++ (t ++ tail)) := by
  obtain ⟨before, after, rfl, hafter⟩ := h
  refine ⟨lead ++ before, after ++ tail, by simp only [List.append_assoc], ?_⟩
  cases after with
  | nil => exact htail
  | cons c after => exact hafter.of_head? rfl

theorem trim (hs : Text.isName symbol = true) (h : Stands module symbol t) :
    Stands module symbol (Text.trim t) := by
  obtain ⟨before, after, rfl, hafter⟩ := h
  obtain ⟨lead, tail, ht, htail⟩ := Text.trim_append (reference_ne_nil module symbol)
    (fun c hc => not_isBlank_head?_reference hc)
    (fun c hc => not_isBlank_of_isNameChar (isNameChar_getLast?_reference hs hc)) before after
  rw [ht]
  exact mk (hafter.of_prefix htail)

end Stands

/-! ## The missing value -/

theorem join_cut (sep : Char) (before : Option Char) (depth : Int) (t : Text) :
    Text.join [sep] (cut (· = sep) before depth t) = t := by
  induction t generalizing before depth with
  | nil => rfl
  | cons c rest ih =>
    rw [cut]
    split
    · rw [Text.join_lengthenHead, ih]
    · split
      · rw [Text.join_lengthenHead, ih]
      · split
        · next hsep =>
          rw [Bool.and_eq_true, decide_eq_true_eq] at hsep
          obtain ⟨piece, more, hcut⟩ := List.exists_cons_of_ne_nil
            (cut_ne_nil (fun d => decide (d = sep)) (some c) depth rest)
          have hjoin := ih (some c) depth
          rw [hcut] at hjoin ⊢
          rw [hsep.1, ← hjoin]
          simp [Text.join, List.intercalate]
        · rw [Text.join_lengthenHead, ih]

/-- One member of a union holds the reference. -/
theorem Stands.exists_mem_splitTopLevel (hm : PlainModule module) (hs : Text.isName symbol = true)
    {t : Text} (h : Stands module symbol t) :
    ∃ member ∈ splitTopLevel '|' t, Stands module symbol member := by
  obtain ⟨before, after, ht, hafter⟩ := h
  have hjoin := join_cut '|' none 0 t
  rw [ht] at hjoin
  obtain ⟨piece, hpiece, lead, tail, rfl, htail⟩ := Text.exists_mem_of_join
    (not_mem_reference hm hs (by decide)) (reference_ne_nil module symbol) hjoin
  refine ⟨_, List.mem_map_of_mem (ht ▸ hpiece), ?_⟩
  exact (Stands.mk (hafter.of_prefix htail)).trim hs

theorem Stands.ne_missingValue {t : Text} (h : Stands module symbol t) : t ≠ missingValue := by
  obtain ⟨before, after, rfl, -⟩ := h
  have hparen : '(' ∈ before ++ (reference module symbol ++ after) := by
    rw [reference_eq, behindImport]
    simp
  intro heq
  rw [heq] at hparen
  exact absurd hparen (by decide)

theorem Stands.stripMissing (hm : PlainModule module) (hs : Text.isName symbol = true) {t : Text}
    (h : Stands module symbol t) : Stands module symbol (stripMissing t).1 := by
  unfold TypeText.stripMissing
  dsimp only
  split
  · exact h
  · obtain ⟨member, hmember, hstands⟩ := h.exists_mem_splitTopLevel hm hs
    have hkept : member ∈ (splitTopLevel '|' t).filter (· ≠ missingValue) := by
      rw [List.mem_filter, decide_eq_true_eq]
      exact ⟨hmember, hstands.ne_missingValue⟩
    obtain ⟨before, after, hjoin, hafter⟩ := @Text.mem_join " | ".toList _ _ hkept
    rw [hjoin]
    refine hstands.append before ?_
    rcases hafter with rfl | ⟨more, rfl⟩
    · exact endsType_nil symbol
    · exact endsType_cons (by decide) (by decide) _

/-! ## Deferred results -/

theorem Stands.unwrap (hm : PlainModule module) (hs : Text.isName symbol = true) {t inner : Text}
    (hstands : Stands module symbol t) (h : unwrap? deferred t = some inner) :
    Stands module symbol inner := by
  obtain ⟨inside, ht, -, rfl⟩ := unwrap?_eq_some_iff.1 h
  obtain ⟨before, after, htrim, hafter⟩ := hstands.trim hs
  rw [ht] at htrim
  refine Stands.trim hs ?_
  have hopen : '<' ∉ reference module symbol := not_mem_reference hm hs (by decide)
  have hclose : '>' ∉ reference module symbol := not_mem_reference hm hs (by decide)
  rcases Text.cons_append_cases hopen htrim.symm with ⟨between, -, hword⟩ | ⟨between, -, hinside⟩
  · have hparen : '(' ∈ deferred := by
      rw [hword, reference_eq, behindImport]
      simp
    exact absurd hparen (by decide)
  · rcases Text.cons_append_cases hclose hinside.symm with ⟨tail, hafter', rfl⟩ | ⟨_, -, hnil⟩
    · exact Stands.mk (hafter.of_prefix (hafter' ▸ List.prefix_append _ _))
    · have hne := reference_ne_nil module symbol
      simp [hne] at hnil

theorem Stands.undefer (hm : PlainModule module) (hs : Text.isName symbol = true) {t : Text}
    (h : Stands module symbol t) : Stands module symbol (undefer t) :=
  undefer_induction (fun _ _ hinner ht => ht.unwrap hm hs hinner) h

/-! ## Arrays -/

/-- Where a word for an array ends with a symbol in front of which a point stands, the symbol is named
as arrays are. -/
theorem isArrayName_of_append_eq {before lead : Text} (hword : wordMayStart lead.getLast? = true)
    (h : before ++ '.' :: symbol = lead ++ "Array".toList) : isArrayName symbol = true := by
  rw [List.append_cons] at h
  rcases List.append_eq_append_iff.1 h with ⟨inner, hl, rfl⟩ | ⟨word, hl, hw⟩
  · refine isArrayName_append ?_
    rw [hl, List.getLast?_append] at hword
    cases hlast : inner.getLast? with
    | none => rfl
    | some d => rwa [hlast] at hword
  · rcases List.eq_nil_or_concat word with rfl | ⟨front, last, rfl⟩
    · rw [List.nil_append] at hw
      rw [← hw]
      decide
    · rw [List.concat_eq_append] at hl hw
      rw [← List.append_assoc] at hl
      obtain ⟨-, hlast⟩ := List.append_inj' hl rfl
      have hdot : '.' ∈ "Array".toList := by
        rw [hw, ← hlast]
        simp
      exact absurd hdot (by decide)

/-- An array type's opening stands in front of a reference, or behind it and what ends it. -/
theorem stands_array_cases (hm : PlainModule module) (hs : Text.isName symbol = true)
    {before after lead body : Text} (hafter : EndsType symbol after)
    (hword : wordMayStart lead.getLast? = true)
    (h : before ++ (reference module symbol ++ after) = lead ++ ("Array".toList ++ '<' :: body)) :
    (∃ c tail, isNameChar c = false ∧ c :: tail <+: after ∧
        lead = before ++ (reference module symbol ++ c :: tail)) ∨
      ∃ between, body = between ++ (reference module symbol ++ after) := by
  have hopen : '<' ∉ reference module symbol := not_mem_reference hm hs (by decide)
  have harray : ∀ c ∈ "Array".toList, isNameChar c = true := List.all_eq_true.1 (by decide)
  rw [← List.append_assoc lead] at h
  rcases Text.cons_append_cases hopen h with ⟨between, rfl, hlead⟩ | ⟨between, -, hbody⟩
  · left
    rw [← List.append_assoc] at hlead
    rcases List.append_eq_append_iff.1 hlead with ⟨word, hl, hw⟩ | ⟨tail, hl, rfl⟩
    · cases between with
      | nil =>
        rw [List.append_nil] at hw
        obtain ⟨front, hfront⟩ := exists_reference_eq_append module symbol
        rw [hfront, ← List.append_assoc, ← hw] at hl
        exact absurd rfl (hafter.array (isArrayName_of_append_eq hword hl))
      | cons c between =>
        have hc := harray c (by rw [hw]; simp)
        rw [hafter.name c rfl] at hc
        exact absurd hc (by decide)
    · cases tail with
      | nil => exact absurd (hafter.name 'A' rfl) (by decide)
      | cons c tail =>
        refine ⟨c, tail, hafter.name c rfl, ?_, by rw [hl, List.append_assoc]⟩
        rw [List.append_assoc]
        exact List.prefix_append _ _
  · exact .inr ⟨between, hbody⟩

theorem Stands.bracketed {t : Text} (h : Stands module symbol t) (lead tail : Text) :
    Stands module symbol (lead ++ bracketed t ++ tail) := by
  unfold TypeText.bracketed
  split
  · have hopen : lead ++ '(' :: t ++ ")[]".toList ++ tail
        = (lead ++ ['(']) ++ (t ++ (')' :: ("[]".toList ++ tail))) := by
      simp only [List.append_assoc, List.cons_append, List.nil_append]
      rfl
    rw [← List.append_assoc lead, hopen]
    exact h.append _ (endsType_cons (by decide) (by decide) _)
  · have hopen : lead ++ (t ++ "[]".toList) ++ tail = lead ++ (t ++ ('[' :: (']' :: tail))) := by
      simp only [List.append_assoc]
      rfl
    rw [hopen]
    exact h.append _ (endsType_cons (by decide) (by decide) _)

theorem Stands.bracketArrays (hm : PlainModule module) (hs : Text.isName symbol = true) {t : Text}
    (h : Stands module symbol t) : Stands module symbol (bracketArrays t) := by
  induction t using bracketArrays_induction with
  | same t hsame => rwa [hsame]
  | array lead inner rest hat hshown ihInner ihRest =>
    obtain ⟨before, after, ht, hafter⟩ := h
    rw [hshown]
    rcases stands_array_cases hm hs hafter hat.word ht.symm with
      ⟨c, tail, hc, htail, hlead⟩ | ⟨between, hbehind⟩
    · -- in front of the array type
      rw [hlead, List.append_assoc, List.append_assoc, List.cons_append]
      exact mk ((hafter.of_prefix htail).of_head? rfl)
    · have hangle : '>' ∉ reference module symbol := not_mem_reference hm hs (by decide)
      rcases Text.cons_append_cases hangle hbehind.symm with
        ⟨more, hmore, hinner⟩ | ⟨more, -, hrest⟩
      · -- between its angle brackets
        have hstands := ihInner (hinner ▸ mk (hafter.of_prefix (hmore ▸ List.prefix_append _ _)))
        rw [← List.append_assoc]
        exact (hstands.trim hs).bracketed _ _
      · -- behind it
        have hstands := (ihRest (hrest ▸ mk hafter)).append (lead ++ arrayOf inner)
          (endsType_nil symbol)
        rwa [List.append_nil, List.append_assoc] at hstands

end TypeText

end NestClient
