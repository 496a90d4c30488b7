import NestClient.Proofs.Path.Names
import NestClient.Proofs.TypeText.Arrays
import NestClient.Proofs.TypeText.Grammar

/-! How the rewriting of array types goes through a text from left to right.

* `bracketArrays_append_cons`: at a mark outside of all words the two sides are rewritten for themselves,
  if every angle bracket of the first one closes there.
* `bracketArrays_word`, `bracketArrays_apart`: an angle bracket is taken for that of an array type if the
  word before it is, or ends in, `Array`.
* `bracketArrays_eq_self_iff`: a text that closes its array types is left as it is where none opens in
  it. -/

namespace NestClient.TypeText

variable {c : Char} {s t u : Text} {before : Option Char}

/-! ## Where array types begin -/

theorem arrayOpen_append (u : Text) : arrayOpen ++ u = arrayWord ++ '<' :: u := rfl

theorem prefix_append_cons_iff {needle : Text} (hc : c ∉ needle) :
    needle <+: s ++ c :: u ↔ needle <+: s := by
  constructor
  · intro h
    rcases List.prefix_or_prefix_of_prefix h (List.prefix_append s (c :: u)) with hin | ⟨more, rfl⟩
    · exact hin
    · rw [List.prefix_append_right_inj] at h
      cases more with
      | nil => rw [List.append_nil]
      | cons d more =>
        obtain rfl : d = c := (List.cons_prefix_cons.1 h).1
        exact absurd (List.mem_append_right _ List.mem_cons_self) hc
  · exact fun h => h.trans (List.prefix_append _ _)

theorem arrayStart?_of_not_word (hc : isWord c = false) (u : Text) :
    arrayStart? (some c) u = arrayStart? none u := by
  have hstart : wordMayStart (some c) = wordMayStart none := by simp [wordMayStart, hc]
  cases u with
  | nil => rfl
  | cons d rest => rw [arrayStart?, arrayStart?, hstart]

/-- The first array type begins before a mark, or else behind it. -/
theorem arrayStart?_append_cons (hc : c ∉ arrayOpen) (hword : isWord c = false) (s u : Text) :
    arrayStart? before (s ++ c :: u)
      = (arrayStart? before s).or ((arrayStart? none u).map (s.length + 1 + ·)) := by
  induction s generalizing before with
  | nil =>
    have hnot : ¬arrayOpen <+: c :: u := by
      rintro ⟨more, hmore⟩
      exact hc (by rw [← (List.cons.inj hmore).1]; decide)
    rw [List.nil_append, arrayStart?, arrayStart?, if_neg (by simp [hnot]), arrayStart?_of_not_word hword,
      Option.none_or]
    congr 1
    funext k
    simp only [List.length_nil]
    omega
  | cons d rest ih =>
    have hbegins : arrayOpen.isPrefixOf (d :: (rest ++ c :: u)) = arrayOpen.isPrefixOf (d :: rest) := by
      rw [Bool.eq_iff_iff, List.isPrefixOf_iff_prefix, List.isPrefixOf_iff_prefix, ← List.cons_append,
        prefix_append_cons_iff hc]
    rw [List.cons_append, arrayStart?, arrayStart?, hbegins, ih]
    split
    · rfl
    · cases arrayStart? (some d) rest with
      | some k => rfl
      | none =>
        rw [Option.none_or, Option.map_none, Option.none_or, Option.map_map]
        congr 1
        funext k
        simp only [Function.comp, List.length_cons]
        omega

/-- A part in which no array type begins is passed over. -/
theorem bracketArrays_skip {lead : Text}
    (h : arrayStart? none (lead ++ u) = (arrayStart? none u).map (lead.length + ·)) :
    bracketArrays (lead ++ u) = lead ++ bracketArrays u := by
  cases hstart : arrayStart? none u with
  | none =>
    rw [hstart] at h
    rw [bracketArrays_of_arrayStart? h, bracketArrays_of_arrayStart? hstart]
  | some start =>
    obtain ⟨front, body, rfl, rfl, -⟩ := eq_of_arrayStart? hstart
    rw [hstart, Option.map_some, ← List.length_append, ← List.append_assoc] at h
    rw [← List.append_assoc, bracketArrays_of_start h, bracketArrays_of_start hstart]
    split <;> rw [List.append_assoc]

/-! ## Marks -/

def ClosesAngles (t : Text) : Prop :=
  ∀ lead body, t = lead ++ '<' :: body → closingOffset (some '<') 1 body ≠ none

theorem closesAngles_of_not_mem (h : '<' ∉ t) : ClosesAngles t := by
  rintro lead body rfl
  exact absurd (List.mem_append_right _ List.mem_cons_self) h

theorem staysOpen_of_closingOffset {d : Int} (hd : 1 ≤ d) (h : closingOffset before d t = none) :
    StaysOpen before d t := by
  induction t generalizing before d with
  | nil => exact staysOpen_nil.2 hd
  | cons c rest ih =>
    rw [closingOffset] at h
    rw [staysOpen_cons, angleWeight]
    refine ⟨hd, ?_⟩
    split at h
    · next hopen =>
      rw [if_pos hopen]
      exact ih (by omega) (Option.map_eq_none_iff.1 h)
    · next hopen =>
      rw [if_neg hopen]
      split at h
      · next hclose =>
        rw [if_pos hclose]
        split at h
        · cases h
        · exact ih (by omega) (Option.map_eq_none_iff.1 h)
      · next hclose =>
        rw [if_neg hclose, Int.add_zero]
        exact ih hd (Option.map_eq_none_iff.1 h)

theorem AngleBalanced.closesAngles (h : AngleBalanced t) : ClosesAngles t := by
  rintro lead body rfl hnone
  have hopen := (staysOpen_of_closingOffset (by decide) hnone).depth
  have htotal := h.total
  have hlead := h.nonneg lead (List.prefix_append _ _)
  rw [angleDepth_append] at htotal
  have hweight : angleWeight (lead.getLast?.or none) '<' = 1 := rfl
  rw [angleDepth, hweight] at htotal
  omega

theorem Wrappable.closesAngles (h : Wrappable t) : ClosesAngles t := h.balanced.closesAngles

/-- At a mark outside of all words the rewriting begins anew. -/
theorem bracketArrays_append_cons (hc : c ∉ arrayOpen) (hword : isWord c = false) (hs : ClosesAngles s)
    (u : Text) : bracketArrays (s ++ c :: u) = bracketArrays s ++ c :: bracketArrays u := by
  induction hn : s.length using Nat.strongRecOn generalizing s with
  | ind n ih =>
  cases hstart : arrayStart? none s with
  | none =>
    have hskip : arrayStart? none (s ++ [c] ++ u) = (arrayStart? none u).map ((s ++ [c]).length + ·) := by
      rw [List.append_assoc, List.singleton_append, arrayStart?_append_cons hc hword, hstart,
        Option.none_or, List.length_append, List.length_singleton]
    have hpassed := bracketArrays_skip hskip
    rw [List.append_assoc, List.append_assoc, List.singleton_append, List.singleton_append] at hpassed
    rw [hpassed, bracketArrays_of_arrayStart? hstart]
  | some start =>
    obtain ⟨lead, body, rfl, rfl, -⟩ := eq_of_arrayStart? hstart
    have hcloses : closingOffset (some '<') 1 body ≠ none := by
      refine hs (lead ++ arrayWord) body ?_
      rw [arrayOpen_append, List.append_assoc]
    obtain ⟨size, hsize⟩ := Option.ne_none_iff_exists'.1 hcloses
    obtain ⟨inner, rest, rfl, rfl, hinner⟩ := closingOffset_one_eq_some_iff.1 hsize
    have hwhole : lead ++ (arrayOpen ++ (inner ++ '>' :: rest)) ++ c :: u
        = lead ++ (arrayOpen ++ (inner ++ '>' :: (rest ++ c :: u))) := by
      simp only [List.append_assoc, List.cons_append]
    have hlonger : arrayStart? none (lead ++ (arrayOpen ++ (inner ++ '>' :: (rest ++ c :: u))))
        = some lead.length := by
      rw [← hwhole, arrayStart?_append_cons hc hword, hstart, Option.some_or]
    have hrest : ClosesAngles rest := by
      rintro front body rfl
      exact hs (lead ++ (arrayOpen ++ (inner ++ '>' :: front))) body (by simp)
    have hlength : rest.length < n := by
      rw [← hn]
      simp only [List.length_append, List.length_cons]
      omega
    rw [hwhole, bracketArrays_of_arrayAt hinner hlonger, bracketArrays_of_arrayAt hinner hstart,
      ih _ hlength hrest rfl, List.append_assoc, List.append_assoc]

/-! ## Words before an angle bracket -/

theorem prefix_arrayOpen_iff (hs : '<' ∉ s) : arrayOpen <+: s ++ '<' :: u ↔ s = arrayWord := by
  constructor
  · rintro ⟨more, hmore⟩
    have hpieces := congrArg (Text.split '<') hmore
    rw [arrayOpen_append, Text.split_append (by decide), Text.split_append hs] at hpieces
    exact (List.cons.inj hpieces).1.symm
  · rintro rfl
    exact ⟨u, arrayOpen_append u⟩

theorem arrayStart?_word (hs : '<' ∉ s) (hword : wordMayStart (s.getLast?.or before) = true) (u : Text) :
    arrayStart? before (s ++ (arrayOpen ++ u)) = some s.length := by
  induction s generalizing before with
  | nil =>
    have hopen : arrayOpen ++ u = 'A' :: ("rray<".toList ++ u) := rfl
    have hbegins : arrayOpen.isPrefixOf ('A' :: ("rray<".toList ++ u)) = true := by
      rw [List.isPrefixOf_iff_prefix, ← hopen]
      exact List.prefix_append _ _
    rw [List.nil_append, hopen, arrayStart?, if_pos]
    · rfl
    · rw [hbegins, Bool.and_true]
      exact hword
  | cons d rest ih =>
    have hnot : ¬arrayOpen <+: d :: (rest ++ (arrayOpen ++ u)) := by
      have hwhole : d :: (rest ++ (arrayOpen ++ u)) = (d :: rest ++ arrayWord) ++ '<' :: u := by
        rw [arrayOpen_append, List.append_assoc, List.cons_append]
      have hmark : '<' ∉ d :: rest ++ arrayWord := by
        rw [List.mem_append, not_or]
        exact ⟨hs, by decide⟩
      rw [hwhole, prefix_arrayOpen_iff hmark]
      intro heq
      have hlength := congrArg List.length heq
      rw [List.length_append, List.length_cons] at hlength
      omega
    rw [List.cons_append, arrayStart?, if_neg (by simp [hnot]),
      ih (fun hmem => hs (List.mem_cons_of_mem d hmem)) (by rwa [getLast?_cons_or] at hword)]
    rfl

theorem arrayStart?_apart (hs : '<' ∉ s)
    (hword : ∀ lead, s = lead ++ arrayWord → wordMayStart (lead.getLast?.or before) = false) (u : Text) :
    arrayStart? before (s ++ '<' :: u) = (arrayStart? none u).map (s.length + 1 + ·) := by
  induction s generalizing before with
  | nil =>
    have hnot : ¬arrayOpen <+: '<' :: u := fun h => absurd (List.cons_prefix_cons.1 h).1 (by decide)
    rw [List.nil_append, arrayStart?, if_neg (by simp [hnot]), arrayStart?_of_not_word (by decide)]
    congr 1
    funext k
    simp only [List.length_nil]
    omega
  | cons d rest ih =>
    have hnot : ¬(wordMayStart before && arrayOpen.isPrefixOf (d :: (rest ++ '<' :: u))) = true := by
      rw [Bool.and_eq_true, List.isPrefixOf_iff_prefix, ← List.cons_append, prefix_arrayOpen_iff hs]
      rintro ⟨hstart, heq⟩
      have hnone := hword [] heq
      rw [List.getLast?_nil, Option.none_or, hstart] at hnone
      cases hnone
    rw [List.cons_append, arrayStart?, if_neg hnot,
      ih (fun hmem => hs (List.mem_cons_of_mem d hmem)), Option.map_map]
    · congr 1
      funext k
      simp only [Function.comp, List.length_cons]
      omega
    · intro lead hlead
      have hlonger := hword (d :: lead) (by rw [hlead]; rfl)
      rwa [getLast?_cons_or] at hlonger

/-- The brackets of an array type close behind its element, and the rewriting goes on from there. -/
theorem bracketArrays_word (hs : '<' ∉ s) (hword : wordMayStart s.getLast? = true) (ht : Wrappable t)
    (u : Text) : bracketArrays (s ++ (arrayOpen ++ (t ++ '>' :: u))) = s ++ (arrayOf t ++ bracketArrays u) :=
  bracketArrays_of_arrayAt ht (arrayStart?_word hs (by rwa [Option.or_none]) _)

/-- A word that no array has for its name is passed over with its bracket. -/
theorem bracketArrays_apart (hs : '<' ∉ s) (hword : isArrayName s = false) (u : Text) :
    bracketArrays (s ++ '<' :: u) = s ++ '<' :: bracketArrays u := by
  have hskip : arrayStart? none (s ++ ['<'] ++ u) = (arrayStart? none u).map ((s ++ ['<']).length + ·) := by
    rw [List.append_assoc, List.singleton_append, arrayStart?_apart hs]
    · rw [List.length_append, List.length_singleton]
    · rintro lead rfl
      rw [Option.or_none, ← Bool.not_eq_true]
      intro hstart
      exact absurd (isArrayName_append hstart) (by rw [Bool.not_eq_true]; exact hword)
  have hpassed := bracketArrays_skip hskip
  rwa [List.append_assoc, List.append_assoc, List.singleton_append, List.singleton_append] at hpassed

theorem bracketArrays_of_not_mem (h : '<' ∉ t) : bracketArrays t = t := by
  apply bracketArrays_of_arrayStart?
  rw [Option.eq_none_iff_forall_ne_some]
  intro k hk
  obtain ⟨lead, body, rfl, -, -⟩ := eq_of_arrayStart? hk
  exact h (List.mem_append_right lead (List.mem_append_left body (by decide)))

/-! ## Blanks before a word -/

theorem isWord_of_isBlank (h : isBlank c = true) : isWord c = false := by
  have hdisjoint : (blankRanges.all fun b => wordRanges.all fun w =>
      Nat.blt b.2 w.1 || Nat.blt w.2 b.1) = true := by decide +kernel
  have hascii : ∀ b ∈ blankRanges, b.2 ≤ 32 ∨ 128 ≤ b.1 := by decide
  have hsmall : ∀ n < 33, isWord (Char.ofNat n) = false := by decide
  obtain ⟨⟨low, high⟩, hmem, hrange⟩ := List.any_eq_true.1 h
  rw [Bool.and_eq_true, decide_eq_true_eq, decide_eq_true_eq] at hrange
  rcases hascii _ hmem with hhigh | hlow
  · have hchar := hsmall c.toNat (by omega)
    rwa [Char.ofNat_toNat] at hchar
  · rw [isWord, if_neg (by omega), CodeRanges.contains, List.any_eq_false]
    rintro ⟨first, last⟩ hword
    have hcases := List.all_eq_true.1 (List.all_eq_true.1 hdisjoint _ hmem) _ hword
    simp only [Bool.or_eq_true, Nat.blt_eq] at hcases
    simp only [Bool.and_eq_true, decide_eq_true_eq, not_and]
    omega

theorem wordMayStart_blanks_append {lead : Text} (hlead : Blanks lead)
    (h : wordMayStart s.getLast? = true) : wordMayStart (lead ++ s).getLast? = true := by
  rw [List.getLast?_append]
  cases hs : s.getLast? with
  | some c => rwa [hs] at h
  | none =>
    rw [Option.none_or]
    cases hlast : lead.getLast? with
    | none => rfl
    | some c =>
      rw [wordMayStart, isWord_of_isBlank (hlead c (List.mem_of_getLast? hlast))]
      rfl

theorem isArrayName_blanks_append {lead : Text} (hlead : Blanks lead) (head : Text) :
    isArrayName (lead ++ head) = isArrayName head := by
  rw [Bool.eq_iff_iff, isArrayName_eq_true_iff, isArrayName_eq_true_iff]
  constructor
  · rintro ⟨front, heq, hword⟩
    rcases List.append_eq_append_iff.1 heq with ⟨inner, rfl, rfl⟩ | ⟨more, hmore, hhead⟩
    · refine ⟨inner, rfl, ?_⟩
      rw [List.getLast?_append] at hword
      cases hinner : inner.getLast? with
      | none => rfl
      | some c => rwa [hinner] at hword
    · cases more with
      | nil => exact ⟨[], hhead.symm, rfl⟩
      | cons d more =>
        obtain rfl : 'A' = d := (List.cons.inj hhead).1
        have hblank := hlead 'A' (by simp [hmore])
        exact absurd hblank (by decide)
  · rintro ⟨inner, rfl, hword⟩
    exact ⟨lead ++ inner, by rw [List.append_assoc], wordMayStart_blanks_append hlead hword⟩

/-! ## Array types in a balanced text -/

/-- An array type opens in the text: the word stands for itself, with its bracket behind it. -/
def OpensArray (t : Text) : Prop :=
  ∃ lead rest, t = lead ++ (arrayOpen ++ rest) ∧ wordMayStart lead.getLast? = true

theorem arrayStart?_ne_none {before : Option Char} {lead rest : Text}
    (hword : wordMayStart (lead.getLast?.or before) = true) :
    arrayStart? before (lead ++ (arrayOpen ++ rest)) ≠ none := by
  induction lead generalizing before with
  | nil =>
    rw [arrayStart?_word (s := []) List.not_mem_nil hword]
    simp
  | cons c lead ih =>
    rw [List.cons_append, arrayStart?]
    split
    · simp
    · rw [ne_eq, Option.map_eq_none_iff]
      exact ih (by rwa [getLast?_cons_or] at hword)

theorem count_arrayOf (inner : Text) :
    (arrayOf inner).count '[' = (bracketArrays inner).count '[' + 1 := by
  have htrim := Text.count_trim (c := '[') (by decide) (bracketArrays inner)
  rw [arrayOf, bracketed]
  split <;> simp [htrim]

/-- An array type in its new place has one more square bracket. -/
theorem count_lt_array {inner rest : Text} (lead : Text)
    (hinner : inner.count '[' ≤ (bracketArrays inner).count '[')
    (hrest : rest.count '[' ≤ (bracketArrays rest).count '[') :
    (lead ++ (arrayOpen ++ (inner ++ '>' :: rest))).count '['
      < (lead ++ (arrayOf inner ++ bracketArrays rest)).count '[' := by
  have hopen : arrayOpen.count '[' = 0 := by decide
  have hclose : ('>' :: rest).count '[' = rest.count '[' := List.count_cons_of_ne (by decide)
  simp only [List.count_append, count_arrayOf, hopen, hclose]
  omega

theorem count_le_bracketArrays (t : Text) : t.count '[' ≤ (bracketArrays t).count '[' := by
  induction t using bracketArrays_induction with
  | same t hsame => rw [hsame]
  | array lead inner rest hat hshown ihInner ihRest =>
    rw [hshown]
    exact Nat.le_of_lt (count_lt_array lead ihInner ihRest)

/-- The number of square brackets tells whether anything was rewritten. -/
theorem bracketArrays_eq_self_of_count (h : (bracketArrays t).count '[' ≤ t.count '[') :
    bracketArrays t = t := by
  rcases bracketArrays_cases t with hsame | ⟨lead, inner, rest, -, rfl, hshown⟩
  · exact hsame
  · rw [hshown] at h
    have hlt := count_lt_array lead (count_le_bracketArrays inner) (count_le_bracketArrays rest)
    omega

/-- Every array type that opens in the text is closed. -/
def ClosesArrays (t : Text) : Prop :=
  ∀ lead rest, t = lead ++ (arrayOpen ++ rest) → wordMayStart lead.getLast? = true →
    closingOffset (some '<') 1 rest ≠ none

theorem ClosesAngles.closesArrays (h : ClosesAngles t) : ClosesArrays t := by
  rintro lead rest rfl -
  refine h (lead ++ arrayWord) rest ?_
  rw [arrayOpen_append, List.append_assoc]

theorem arrayStart?_eq_none_iff : arrayStart? none t = none ↔ ¬OpensArray t := by
  constructor
  · rintro hnone ⟨lead, rest, rfl, hword⟩
    exact arrayStart?_ne_none (by rwa [Option.or_none]) hnone
  · intro hnone
    rw [Option.eq_none_iff_forall_ne_some]
    intro start hstart
    obtain ⟨lead, body, rfl, -, hword⟩ := eq_of_arrayStart? hstart
    rw [Option.or_none] at hword
    exact hnone ⟨lead, body, rfl, hword⟩

theorem bracketArrays_eq_self_iff (h : ClosesArrays t) : bracketArrays t = t ↔ ¬OpensArray t := by
  rw [← arrayStart?_eq_none_iff]
  constructor
  · intro hsame
    rw [Option.eq_none_iff_forall_ne_some]
    intro start hstart
    obtain ⟨front, body, rfl, rfl, hword⟩ := eq_of_arrayStart? hstart
    rw [Option.or_none] at hword
    obtain ⟨size, hsize⟩ := Option.ne_none_iff_exists'.1 (h front body rfl hword)
    obtain ⟨inner, behind, rfl, rfl, hinner⟩ := closingOffset_one_eq_some_iff.1 hsize
    rw [bracketArrays_of_arrayAt hinner hstart] at hsame
    have hlt := count_lt_array front (count_le_bracketArrays inner) (count_le_bracketArrays behind)
    rw [hsame] at hlt
    exact absurd hlt (Nat.lt_irrefl _)
  · exact bracketArrays_of_arrayStart?

theorem mem_bracketArrays {c : Char} (h : c ∈ bracketArrays t) : c ∈ t ∨ c ∈ "()[]".toList := by
  induction t using bracketArrays_induction with
  | same t hsame => exact .inl (hsame ▸ h)
  | array lead inner rest hat hshown ihInner ihRest =>
    have helement : c ∈ arrayOf inner → c ∈ bracketArrays inner ∨ c ∈ "()[]".toList := by
      rw [arrayOf, bracketed]
      split
      all_goals
        intro hc
        simp only [List.cons_append, List.mem_cons, List.mem_append] at hc
      · rcases hc with rfl | hc | hc
        · exact .inr (by decide)
        · exact .inl (Text.mem_of_mem_trim hc)
        · exact .inr (List.mem_cons_of_mem '(' hc)
      · rcases hc with hc | hc
        · exact .inl (Text.mem_of_mem_trim hc)
        · exact .inr (List.mem_cons_of_mem '(' (List.mem_cons_of_mem ')' hc))
    rw [hshown, List.mem_append, List.mem_append] at h
    simp only [List.mem_append, List.mem_cons]
    rcases h with h | h | h
    · exact .inl (.inl h)
    · rcases helement h with h | h
      · exact (ihInner h).imp_left fun h => .inr (.inr (.inl h))
      · exact .inr h
    · exact (ihRest h).imp_left fun h => .inr (.inr (.inr (.inr h)))

/-- Only what begins like an array can have another first character once it is rewritten. -/
theorem exists_bracketArrays_cons {c : Char} (hc : c ≠ 'A') (rest : Text) :
    ∃ shown, bracketArrays (c :: rest) = c :: shown := by
  rcases bracketArrays_cases (c :: rest) with hsame | ⟨lead, inner, behind, -, heq, hshown⟩
  · exact ⟨rest, hsame⟩
  · cases lead with
    | nil => exact absurd (List.cons.inj heq).1 hc
    | cons d lead =>
      obtain ⟨rfl, -⟩ := List.cons.inj heq
      exact ⟨_, hshown⟩

end NestClient.TypeText
