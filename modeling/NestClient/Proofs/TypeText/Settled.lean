import NestClient.Proofs.TypeText.Rewriting

/-! A text whose array types are rewritten is settled: rewriting it again changes nothing, and an array
type opens in it only where one is never closed in the text.

* `opensArray_append`: behind a character that is no part of a word the search for array types begins anew.
* `ArrayAt.opensArray_iff`: none opens in a rewritten array type, nor at the seams on its two sides.
* `ArrayAt.closesArrays_iff`: an array type that opens in a text opens in one that is rewritten, and is
  closed, or behind it.
* `bracketArrays_settled`: both for every text. -/

namespace NestClient.TypeText

variable {before : Option Char} {lead inner rest s t u : Text}

/-! ## Seams -/

/-- The word for an array does not go on behind a character that belongs to no word. -/
theorem prefix_arrayOpen_append (hne : s ≠ []) (hword : wordMayStart s.getLast? = true) (u : Text) :
    arrayOpen <+: s ++ u ↔ arrayOpen <+: s := by
  refine ⟨fun h => ?_, fun h => h.trans (List.prefix_append s u)⟩
  rcases List.prefix_or_prefix_of_prefix h (List.prefix_append s u) with hin | ⟨more, hmore⟩
  · exact hin
  · rcases List.eq_nil_or_concat more with rfl | ⟨front, mark, rfl⟩
    · rw [← hmore, List.append_nil]
    · have hletters : ∀ c ∈ arrayOpen.dropLast, isWord c = true := List.all_eq_true.1 (by decide)
      have hdrop : arrayOpen.dropLast = s ++ front := by
        rw [← hmore, List.concat_eq_append, ← List.append_assoc, List.dropLast_concat]
      obtain ⟨c, hc⟩ := Option.ne_none_iff_exists'.1 (mt List.getLast?_eq_none_iff.1 hne)
      have hletter : isWord c = true := by
        refine hletters c ?_
        rw [hdrop]
        exact List.mem_append_left front (List.mem_of_getLast? hc)
      rw [hc, wordMayStart, hletter] at hword
      exact absurd hword (by decide)

/-- An array type that opens in a part of this kind opens in it with the whole word. -/
theorem exists_of_arrayOpen_append {after : Text} (hne : s ≠ []) (hword : wordMayStart s.getLast? = true)
    (h : arrayOpen ++ after = s ++ u) : ∃ body, s = arrayOpen ++ body ∧ after = body ++ u := by
  obtain ⟨body, hbody⟩ := (prefix_arrayOpen_append hne hword u).1 ⟨after, h⟩
  refine ⟨body, hbody.symm, ?_⟩
  rw [← hbody, List.append_assoc] at h
  exact List.append_cancel_left h

theorem arrayStart?_of_wordMayStart (h : wordMayStart before = true) (u : Text) :
    arrayStart? before u = arrayStart? none u := by
  cases before with
  | none => rfl
  | some c => exact arrayStart?_of_not_word (by simpa [wordMayStart] using h) u

theorem arrayStart?_append (hword : wordMayStart (s.getLast?.or before) = true) (u : Text) :
    arrayStart? before (s ++ u)
      = (arrayStart? before s).or ((arrayStart? none u).map (s.length + ·)) := by
  induction s generalizing before with
  | nil =>
    rw [List.getLast?_nil, Option.none_or] at hword
    rw [List.nil_append, arrayStart?_of_wordMayStart hword, arrayStart?, Option.none_or]
    simp
  | cons c rest ih =>
    rw [getLast?_cons_or] at hword
    have hbegins : arrayOpen.isPrefixOf (c :: (rest ++ u)) = arrayOpen.isPrefixOf (c :: rest) := by
      rw [Bool.eq_iff_iff, List.isPrefixOf_iff_prefix, List.isPrefixOf_iff_prefix, ← List.cons_append]
      refine prefix_arrayOpen_append (List.cons_ne_nil c rest) ?_ u
      rw [List.getLast?_cons]
      cases hlast : rest.getLast? <;> rwa [hlast] at hword
    rw [List.cons_append, arrayStart?, arrayStart?, hbegins, ih hword]
    split
    · rfl
    · cases arrayStart? (some c) rest with
      | some k => rfl
      | none =>
        rw [Option.none_or, Option.map_none, Option.none_or, Option.map_map]
        congr 1
        funext k
        simp only [Function.comp, List.length_cons]
        omega

theorem opensArray_append (hword : wordMayStart s.getLast? = true) :
    OpensArray (s ++ u) ↔ OpensArray s ∨ OpensArray u := by
  rw [← not_iff_not, not_or, ← arrayStart?_eq_none_iff, ← arrayStart?_eq_none_iff,
    ← arrayStart?_eq_none_iff, arrayStart?_append (by rwa [Option.or_none]), Option.or_eq_none_iff,
    Option.map_eq_none_iff]

theorem opensArray_append_cons {c : Char} (hc : c ∉ arrayOpen) (hword : isWord c = false) :
    OpensArray (s ++ c :: u) ↔ OpensArray s ∨ OpensArray u := by
  rw [← not_iff_not, not_or, ← arrayStart?_eq_none_iff, ← arrayStart?_eq_none_iff,
    ← arrayStart?_eq_none_iff, arrayStart?_append_cons hc hword, Option.or_eq_none_iff,
    Option.map_eq_none_iff]

/-! ## A rewritten array type -/

theorem not_opensArray_of_not_mem (h : '<' ∉ t) : ¬OpensArray t := by
  rintro ⟨lead, rest, rfl, -⟩
  exact h (List.mem_append_right lead (List.mem_append_left rest (by decide)))

theorem OpensArray.of_trim (h : OpensArray (Text.trim t)) : OpensArray t := by
  obtain ⟨blanks, tail, ht, hblanks, -⟩ := Text.exists_trim t
  obtain ⟨lead, rest, htrim, hword⟩ := h
  refine ⟨blanks ++ lead, rest ++ tail, ?_, wordMayStart_blanks_append hblanks hword⟩
  rw [ht, htrim]
  simp only [List.append_assoc]

theorem OpensArray.of_bracketed {element : Text} (h : OpensArray (bracketed element)) :
    OpensArray element := by
  have hempty : ¬OpensArray [] := not_opensArray_of_not_mem (by decide)
  have hsquare : ¬OpensArray [']'] := not_opensArray_of_not_mem (by decide)
  have hsuffix : ¬OpensArray "[]".toList := not_opensArray_of_not_mem (by decide)
  unfold bracketed at h
  split at h
  · have hparts : '(' :: element ++ ")[]".toList = [] ++ '(' :: (element ++ ')' :: "[]".toList) := rfl
    rw [hparts, opensArray_append_cons (by decide) (by decide),
      opensArray_append_cons (by decide) (by decide)] at h
    exact (h.resolve_left hempty).resolve_right hsuffix
  · have hparts : element ++ "[]".toList = element ++ '[' :: [']'] := rfl
    rw [hparts, opensArray_append_cons (by decide) (by decide)] at h
    exact h.resolve_right hsquare

namespace ArrayAt

/-- With its array type rewritten, a text opens only what it opens behind it. -/
theorem opensArray_iff (h : ArrayAt lead inner) (hinner : ¬OpensArray (bracketArrays inner)) :
    OpensArray (lead ++ (arrayOf inner ++ u)) ↔ OpensArray u := by
  have hlast : wordMayStart (arrayOf inner).getLast? = true := by
    rw [arrayOf, getLast?_bracketed]
    decide
  have hlead : ¬OpensArray lead := arrayStart?_eq_none_iff.1 h.first
  have helement : ¬OpensArray (arrayOf inner) := fun hopen => hinner hopen.of_bracketed.of_trim
  rw [opensArray_append h.word, opensArray_append hlast]
  simp only [hlead, helement, false_or]

/-- The brackets of the array types in the element close inside of it. -/
theorem closes_inside (h : ArrayAt lead inner) {front body : Text}
    (hbody : arrayOpen ++ (inner ++ ['>']) = front ++ (arrayOpen ++ body)) :
    closingOffset (some '<') 1 (body ++ rest) ≠ none := by
  intro hnone
  have hopen := (staysOpen_append.1 (staysOpen_of_closingOffset (by decide) hnone)).1.depth
  -- otherwise the part in front of it would close more brackets than it opens
  have hfront : StaysOpen none 1 front := by
    have hwhole := h.neutral.isOpen none 1 (by decide)
    rw [hbody, staysOpen_append] at hwhole
    exact hwhole.1
  have htotal := h.neutral.depth none
  rw [hbody, angleDepth_append, angleDepth_append] at htotal
  have hone : angleDepth (front.getLast?.or none) arrayOpen = 1 := by
    rw [angleDepth_of_head? (by decide)]
    decide
  have hlast : arrayOpen.getLast?.or (front.getLast?.or none) = some '<' := rfl
  have hdepth := hfront.depth
  rw [hone, hlast] at htotal
  omega

theorem closesArrays (h : ArrayAt lead inner) (hrest : ClosesArrays rest) :
    ClosesArrays (lead ++ (arrayOpen ++ (inner ++ '>' :: rest))) := by
  have hinside : ∀ front more after, arrayOpen ++ (inner ++ ['>']) = front ++ more →
      arrayOpen ++ after = more ++ rest → more ≠ [] → closingOffset (some '<') 1 after ≠ none := by
    intro front more after hpart hmore hne
    have hlast : more.getLast? = some '>' := by
      have hwhole := congrArg List.getLast? hpart
      rw [← List.append_assoc, List.getLast?_concat, List.getLast?_append_of_ne_nil _ hne] at hwhole
      exact hwhole.symm
    obtain ⟨body, rfl, rfl⟩ := exists_of_arrayOpen_append hne (by rw [hlast]; decide) hmore
    exact h.closes_inside hpart
  intro before after heq hword
  rw [array_eq] at heq
  rcases List.append_eq_append_iff.1 heq with ⟨front, rfl, hfront⟩ | ⟨more, rfl, hmore⟩
  · rcases List.append_eq_append_iff.1 hfront with ⟨between, rfl, hbehind⟩ | ⟨more, hpart, hmore⟩
    · refine hrest between after hbehind ?_
      rw [← List.append_assoc, List.getLast?_append] at hword
      cases hlast : between.getLast? with
      | none => rfl
      | some c => rwa [hlast] at hword
    · by_cases hne : more = []
      · rw [hne, List.nil_append] at hmore
        exact hrest [] after hmore.symm rfl
      · exact hinside front more after hpart hmore hne
  · by_cases hne : more = []
    · rw [hne, List.nil_append] at hmore
      exact hinside [] _ after rfl hmore (by simp)
    · -- none begins before the first one
      have hmark := h.word
      rw [List.getLast?_append_of_ne_nil _ hne] at hmark
      obtain ⟨body, rfl, -⟩ := exists_of_arrayOpen_append hne hmark hmore
      exact absurd ⟨before, body, rfl, hword⟩ (arrayStart?_eq_none_iff.1 h.first)

/-- The array types behind a rewritten one are among those of the text. -/
theorem closesArrays_iff (h : ArrayAt lead inner) :
    ClosesArrays (lead ++ (arrayOpen ++ (inner ++ '>' :: rest))) ↔ ClosesArrays rest := by
  refine ⟨?_, h.closesArrays⟩
  rintro hwhole front body rfl hword
  refine hwhole (lead ++ (arrayOpen ++ (inner ++ '>' :: front))) body (by simp) ?_
  rw [← List.append_assoc, ← List.append_assoc, List.getLast?_append, List.getLast?_cons]
  cases hlast : front.getLast? with
  | none => rfl
  | some c => rwa [hlast] at hword

end ArrayAt

/-! ## The rewritten text -/

/-- An array type opens in the rewritten text where one that is never closed opens in the text. -/
theorem not_opensArray_bracketArrays_iff : ¬OpensArray (bracketArrays t) ↔ ClosesArrays t := by
  induction t using bracketArrays_induction with
  | same t hsame =>
    constructor
    · intro hnone lead rest ht hword
      rw [hsame] at hnone
      exact absurd ⟨lead, rest, ht, hword⟩ hnone
    · intro hcloses
      rw [hsame]
      exact (bracketArrays_eq_self_iff hcloses).1 hsame
  | array lead inner rest hat hshown ihInner ihRest =>
    have hinner := ihInner.2 hat.inside.closesAngles.closesArrays
    rw [hshown, hat.opensArray_iff hinner, hat.closesArrays_iff, ihRest]

theorem ArrayAt.not_opensArray (h : ArrayAt lead inner) : ¬OpensArray (bracketArrays inner) :=
  not_opensArray_bracketArrays_iff.2 h.inside.closesAngles.closesArrays

theorem ArrayAt.bracketArrays_append (h : ArrayAt lead inner) (u : Text) :
    bracketArrays (lead ++ (arrayOf inner ++ u)) = lead ++ (arrayOf inner ++ bracketArrays u) := by
  have hlast : (lead ++ arrayOf inner).getLast? = some ']' := by
    rw [List.getLast?_append, arrayOf, getLast?_bracketed, Option.some_or]
  have hnone : ¬OpensArray (lead ++ arrayOf inner) := by
    have hempty := h.opensArray_iff (u := []) h.not_opensArray
    rw [List.append_nil] at hempty
    exact mt hempty.1 (not_opensArray_of_not_mem (by decide))
  have hskip : arrayStart? none (lead ++ arrayOf inner ++ u)
      = (arrayStart? none u).map ((lead ++ arrayOf inner).length + ·) := by
    rw [arrayStart?_append (by rw [hlast]; decide), arrayStart?_eq_none_iff.2 hnone, Option.none_or]
  have hpassed := bracketArrays_skip hskip
  rwa [List.append_assoc, List.append_assoc] at hpassed

theorem bracketArrays_bracketArrays (t : Text) :
    bracketArrays (bracketArrays t) = bracketArrays t := by
  induction t using bracketArrays_induction with
  | same t hsame => rw [hsame, hsame]
  | array lead inner rest hat hshown ihInner ihRest =>
    rw [hshown, hat.bracketArrays_append, ihRest]

theorem closesArrays_iff_matchingAngle : ClosesArrays t ↔ ∀ lead rest, t = lead ++ (arrayOpen ++ rest) →
    wordMayStart lead.getLast? = true → matchingAngle t (lead.length + arrayWord.length) ≠ none := by
  refine forall₂_congr fun lead rest => forall_congr' fun ht => ?_
  have hopen : t = (lead ++ arrayWord) ++ '<' :: rest := by
    rw [ht, arrayOpen_append, List.append_assoc]
  have hmatch := matchingAngle_append (lead ++ arrayWord) rest
  rw [← hopen, List.length_append] at hmatch
  rw [hmatch, ne_eq, ne_eq, Option.map_eq_none_iff]

/-- Rewriting the array types of a text a second time changes nothing; and none is left in the rewritten
text if and only if each one that opens in the text has a closing bracket. -/
theorem bracketArrays_settled (t : Text) :
    bracketArrays (bracketArrays t) = bracketArrays t ∧
      (¬OpensArray (bracketArrays t) ↔ ∀ lead rest, t = lead ++ (arrayOpen ++ rest) →
        wordMayStart lead.getLast? = true → matchingAngle t (lead.length + arrayWord.length) ≠ none) := by
  rw [← closesArrays_iff_matchingAngle]
  exact ⟨bracketArrays_bracketArrays t, not_opensArray_bracketArrays_iff⟩

end NestClient.TypeText
