import NestClient.Proofs.Client.ManifestPath
import NestClient.Proofs.Extract.ParsedTypes

/-! The file of a client and the name of its class.

* `kebabCase_service`: in kebab case, `Service` behind a name becomes a word of its own where a hump can
  begin there, behind a small letter or a digit.
* `exists_word_iff`: so it does for all names but those that end in a capital letter or a dollar sign; the
  hyphen for an underscore serves, too.
* `clientFileName_eq_iff`: the file is that of a service if the word is there.
* `clientFileName_kebab_iff`: which files are named by the rule, for the controllers of all names. -/

namespace NestClient

variable {b c : Char} {s t u name : Text}

/-! ## Kebab case of a text in two parts -/

theorem Text.markHumps_append (mark b c : Char) (s u : Text) :
    markHumps mark (s ++ b :: c :: u)
      = markHumps mark (s ++ [b]) ++ ((if humpBetween b c then [mark] else []) ++ markHumps mark (c :: u)) := by
  induction s with
  | nil =>
    rw [List.nil_append, List.nil_append, markHumps, markHumps]
    by_cases hhump : humpBetween b c = true <;> simp [hhump, markHumps]
  | cons a rest ih =>
    have hhead : (rest ++ b :: c :: u).head? = (rest ++ [b]).head? := by
      cases rest <;> rfl
    rw [List.cons_append, List.cons_append, markHumps, markHumps, ih, hhead]
    split <;> rfl

theorem hyphenate_append (h : u.head?.any (fun d => isBlank d || d = '_') = false) (s : Text) :
    hyphenate (s ++ u) = hyphenate s ++ hyphenate u := by
  induction s with
  | nil => rfl
  | cons a rest ih =>
    have hnext : (rest ++ u).head?.any (fun d => isBlank d || d = '_')
        = rest.head?.any (fun d => isBlank d || d = '_') := by
      cases rest with
      | nil => exact h
      | cons d rest => rfl
    rw [List.cons_append, hyphenate, hyphenate, hnext, ih]
    split
    · split <;> rfl
    · rfl

theorem separator_of_mem_hyphenate (h : b ∈ hyphenate t) : isBlank b = false ∧ b ≠ '_' := by
  induction t with
  | nil => simp [hyphenate] at h
  | cons a rest ih =>
    rw [hyphenate] at h
    split at h
    · split at h
      · exact ih h
      · rcases List.mem_cons.1 h with rfl | h
        · decide
        · exact ih h
    next hvisible =>
      rw [Bool.or_eq_true, decide_eq_true_eq, not_or, Bool.not_eq_true] at hvisible
      rcases List.mem_cons.1 h with rfl | h
      · exact hvisible
      · exact ih h

theorem Text.lowerAfter_ascii (h : ∀ c ∈ t, c.toNat < 128) (before : Text) :
    lowerAfter before t = t.map Char.toLower := by
  induction t generalizing before with
  | nil => rfl
  | cons c rest ih =>
    have hc := h c List.mem_cons_self
    rw [lowerAfter, if_neg (by omega), lowerChar, if_pos hc, ih fun b hb => h b (List.mem_cons_of_mem c hb)]
    rfl

/-! ## Names -/

/-- A text of characters that can stand in a name. -/
def IsNameText (t : Text) : Prop := ∀ c ∈ t, isNameChar c = true

theorem isNameText_service : IsNameText "Service".toList := List.all_eq_true.1 (by decide)

theorem IsNameText.append (hs : IsNameText s) (ht : IsNameText t) : IsNameText (s ++ t) :=
  fun c hc => (List.mem_append.1 hc).elim (hs c) (ht c)

theorem IsNameText.last (h : IsNameText (s ++ [c])) : isNameChar c = true :=
  h c (List.mem_append_right s List.mem_cons_self)

theorem isNameText_of_isName (h : Text.isName name = true) : IsNameText name := by
  cases name with
  | nil => simp [Text.isName] at h
  | cons a rest =>
    rw [Text.isName, Bool.and_eq_true] at h
    intro c hc
    rcases List.mem_cons.1 hc with rfl | hc
    · exact isNameChar_of_isNameStart h.1
    · exact List.all_eq_true.1 h.2 c hc

/-- A character of a name: a hump can begin behind it, or it is an underscore, or else a capital letter or a
dollar sign. -/
theorem isNameChar_cases (h : isNameChar c = true) :
    ((c.isLower || c.isDigit) = true ∧ c.isUpper = false ∧ c ≠ '$') ∨ c = '_' ∨
      ((c.isLower || c.isDigit) = false ∧ c ≠ '_' ∧ (c.isUpper = true ∨ c = '$')) := by
  have hcases : ((c.isLower || c.isDigit) && !c.isUpper && c ≠ '$' || c = '_'
      || !(c.isLower || c.isDigit) && c ≠ '_' && (c.isUpper || c = '$')) = true :=
    TypeScript.of_isNameChar (f := fun c => (c.isLower || c.isDigit) && !c.isUpper && c ≠ '$' || c = '_'
      || !(c.isLower || c.isDigit) && c ≠ '_' && (c.isUpper || c = '$')) (by decide +kernel) h
  simpa [or_assoc, and_assoc] using hcases

theorem toLower_visible (h : isNameChar c = true) (hc : c ≠ '_') :
    c.toLower.isUpper = false ∧ c.toLower ∉ "_-.".toList ∧ isBlank c.toLower = false := by
  have hcases : (c = '_' || (!c.toLower.isUpper && !"_-.".toList.contains c.toLower
      && !isBlank c.toLower)) = true :=
    TypeScript.of_isNameChar (f := fun c => c = '_' || (!c.toLower.isUpper
      && !"_-.".toList.contains c.toLower && !isBlank c.toLower)) (by decide +kernel) h
  simpa [hc, and_assoc] using hcases

/-! ## Kebab case of a name -/

theorem kebabCase_eq (h : IsNameText t) :
    kebabCase t = (hyphenate (Text.markHumps '-' t)).map Char.toLower := by
  refine Text.lowerAfter_ascii (fun c hc => ?_) []
  rcases mem_hyphenate hc with rfl | hc
  · decide
  · rcases Text.mem_markHumps hc with rfl | hc
    · decide
    · have hrange := toNat_of_isNameChar (h c hc)
      omega

/-- Kebab case has neither capital letters nor underscores nor blanks. -/
theorem of_mem_kebabCase (h : IsNameText t) (hb : b ∈ kebabCase t) :
    b.isUpper = false ∧ b ∉ "_.".toList ∧ isBlank b = false := by
  rw [kebabCase_eq h] at hb
  obtain ⟨c, hc, rfl⟩ := List.mem_map.1 hb
  have hvisible := separator_of_mem_hyphenate hc
  rcases (mem_hyphenate hc).imp_right Text.mem_markHumps with rfl | rfl | hc
  · decide
  · decide
  · obtain ⟨hupper, hmarks, hblank⟩ := toLower_visible (h c hc) hvisible.2
    have hsub : "_.".toList.Sublist "_-.".toList := by decide
    exact ⟨hupper, fun hmem => hmarks (hsub.subset hmem), hblank⟩

/-- In kebab case `Service` is a word of its own behind a small letter or a digit. -/
theorem kebabCase_service (h : IsNameText (s ++ [c])) : kebabCase (s ++ [c] ++ "Service".toList)
    = kebabCase (s ++ [c]) ++ if c.isLower || c.isDigit then "-service".toList else "service".toList := by
  have hparts : s ++ [c] ++ "Service".toList = s ++ c :: 'S' :: "ervice".toList := by simp
  have hservice : Text.markHumps '-' ('S' :: "ervice".toList) = "Service".toList := by decide
  have hhump : Text.humpBetween c 'S' = (c.isLower || c.isDigit) := Bool.and_true _
  rw [kebabCase_eq (h.append isNameText_service), kebabCase_eq h, hparts, Text.markHumps_append, hservice,
    hhump]
  split
  · rw [hyphenate_append (by decide), List.map_append]
    rfl
  · rw [List.nil_append, hyphenate_append (by decide), List.map_append]
    rfl

theorem kebabCase_concat_visible (h : IsNameText (s ++ [c])) (hc : c ≠ '_') :
    ∃ before, kebabCase (s ++ [c]) = before ++ [c.toLower] := by
  obtain ⟨marked, hmarked⟩ := Text.markHumps_concat '-' s c
  obtain ⟨hyphened, hhyphened⟩ := hyphenate_concat (not_isBlank_of_isNameChar h.last) hc marked
  rw [kebabCase_eq h, hmarked, hhyphened, List.map_append]
  exact ⟨_, rfl⟩

theorem kebabCase_concat_underscore (h : IsNameText (s ++ ['_'])) :
    ∃ before, kebabCase (s ++ ['_']) = before ++ ['-'] := by
  obtain ⟨marked, hmarked⟩ := Text.markHumps_concat '-' s '_'
  obtain ⟨hyphened, hhyphened⟩ := exists_hyphenate_append marked ['_']
  rw [kebabCase_eq h, hmarked, hhyphened, List.map_append]
  exact ⟨_, rfl⟩

/-! ## Files -/

theorem clientFileName_of_word (h : kebabCase t = s ++ "-service".toList) :
    clientFileName t = s ++ ".service.ts".toList := by
  have hdrop : Text.dropTail? "-service".toList (kebabCase t) = some s := Text.dropTail?_eq_some_iff.2 h
  unfold clientFileName
  dsimp only
  rw [hdrop]
  dsimp only
  rw [List.append_assoc]
  rfl

theorem clientFileName_of_joined (h : ∀ s, kebabCase t ≠ s ++ "-service".toList) :
    clientFileName t = kebabCase t ++ ".ts".toList := by
  have hdrop : Text.dropTail? "-service".toList (kebabCase t) = none := by
    rw [Option.eq_none_iff_forall_ne_some]
    exact fun s hs => h s (Text.dropTail?_eq_some_iff.1 hs)
  unfold clientFileName
  dsimp only
  rw [hdrop]

theorem clientFileName_eq_iff (ht : '.' ∉ kebabCase t) :
    clientFileName t = s ++ ".service.ts".toList ↔ kebabCase t = s ++ "-service".toList := by
  refine ⟨fun h => ?_, clientFileName_of_word⟩
  by_cases hword : ∃ stem, kebabCase t = stem ++ "-service".toList
  · obtain ⟨stem, hstem⟩ := hword
    rw [clientFileName_of_word hstem] at h
    rw [hstem, List.append_cancel_right h]
  · rw [clientFileName_of_joined fun stem hstem => hword ⟨stem, hstem⟩] at h
    have hparts : s ++ ".service.ts".toList = s ++ ".service".toList ++ ".ts".toList := by
      rw [List.append_assoc]
      rfl
    rw [hparts] at h
    refine absurd ?_ ht
    rw [List.append_cancel_right h]
    exact List.mem_append_right s (by decide)

theorem mem_clientFileName (h : b ∈ clientFileName t) : b ∈ kebabCase t ∨ b ∈ ".service.ts".toList := by
  by_cases hword : ∃ stem, kebabCase t = stem ++ "-service".toList
  · obtain ⟨stem, hstem⟩ := hword
    rw [clientFileName_of_word hstem, List.mem_append] at h
    exact h.imp_left fun hb => hstem ▸ List.mem_append_left _ hb
  · rw [clientFileName_of_joined fun stem hstem => hword ⟨stem, hstem⟩, List.mem_append] at h
    exact h.imp_right fun hb => List.mem_append_right ".service".toList hb

theorem clientClassName_parts (h : Text.isName name = true) : ∃ front last,
    clientClassName name = front ++ [last] ++ "Service".toList ∧ IsNameText (front ++ [last]) := by
  obtain ⟨stem, hclass, hstem⟩ := clientClassName_eq name
  have hname : IsNameText ("Api".toList ++ stem) := by
    refine IsNameText.append (List.all_eq_true.1 (by decide)) fun c hc => ?_
    exact isNameText_of_isName h c (hstem c hc)
  obtain ⟨front, last, hparts⟩ : ∃ front last, "Api".toList ++ stem = front ++ [last] := by
    rcases List.eq_nil_or_concat ("Api".toList ++ stem) with hnil | ⟨front, last, hconcat⟩
    · simp at hnil
    · exact ⟨front, last, by rw [hconcat, List.concat_eq_append]⟩
  rw [hparts] at hclass hname
  exact ⟨front, last, hclass, hname⟩

/-- `Service` is a word in the kebab case of a class, unless a capital letter or a dollar sign stands in
front of it. -/
theorem exists_word_iff (h : IsNameText (s ++ [c])) :
    (∃ stem, kebabCase (s ++ [c] ++ "Service".toList) = stem ++ "-service".toList) ↔
      c.isUpper = false ∧ c ≠ '$' := by
  rw [kebabCase_service h]
  rcases isNameChar_cases h.last with ⟨hhump, hplain⟩ | rfl | ⟨hhump, hlow, hmark⟩
  · rw [if_pos hhump]
    exact iff_of_true ⟨_, rfl⟩ hplain
  · obtain ⟨before, hbefore⟩ := kebabCase_concat_underscore h
    refine iff_of_true ⟨before, ?_⟩ (by decide)
    rw [hbefore, List.append_assoc]
    rfl
  · obtain ⟨before, hbefore⟩ := kebabCase_concat_visible h hlow
    have hplain : ¬(c.isUpper = false ∧ c ≠ '$') := by
      rintro ⟨hupper, hdollar⟩
      exact hmark.elim (fun h => by simp [h] at hupper) hdollar
    refine iff_of_false ?_ hplain
    rintro ⟨stem, hstem⟩
    have hword : stem ++ "-service".toList = stem ++ ['-'] ++ "service".toList := by simp
    rw [if_neg (by simp [hhump]), hbefore, hword] at hstem
    have hlast := List.append_inj_right' (List.append_cancel_right hstem) rfl
    exact (toLower_visible h.last hlow).2.1 (by rw [List.singleton_inj.1 hlast]; decide)

/-- The file of a client is named by its class if the name in front of `Service` ends in a small letter or a
digit: it is the kebab case of that name, with the extension of a service. Behind an underscore the hyphen
that stands for it is missing, behind a capital letter or a dollar sign the extension. -/
theorem clientFileName_kebab_iff (hname : Text.isName name = true) :
    ∃ front last, clientClassName name = front ++ [last] ++ "Service".toList ∧
      (clientFileName (clientClassName name) = kebabCase (front ++ [last]) ++ ".service.ts".toList ↔
        (last.isLower || last.isDigit) = true) ∧
      ((∃ stem, clientFileName (clientClassName name) = stem ++ ".service.ts".toList) ↔
        last.isUpper = false ∧ last ≠ '$') ∧
      (∀ stem, clientFileName (clientClassName name) = stem ++ ".service.ts".toList →
        kebabCase (clientClassName name) = stem ++ "-service".toList) ∧
      ∀ c ∈ clientFileName (clientClassName name), c.isUpper = false ∧ c ≠ '_' ∧ isBlank c = false := by
  obtain ⟨front, last, hclass, hparts⟩ := clientClassName_parts hname
  have hwhole := hparts.append isNameText_service
  have hdot : '.' ∉ kebabCase (front ++ [last] ++ "Service".toList) :=
    fun hmem => (of_mem_kebabCase hwhole hmem).2.1 (by decide)
  refine ⟨front, last, hclass, ?_⟩
  rw [hclass]
  refine ⟨?_, ?_, fun stem => (clientFileName_eq_iff hdot).1, fun c hc => ?_⟩
  · rw [clientFileName_eq_iff hdot, kebabCase_service hparts, List.append_right_inj]
    split
    next hhump => exact iff_of_true rfl hhump
    next hhump => exact iff_of_false (by decide) hhump
  · simp only [clientFileName_eq_iff hdot]
    exact exists_word_iff hparts
  · rcases mem_clientFileName hc with hc | hc
    · obtain ⟨hupper, hmarks, hblank⟩ := of_mem_kebabCase hwhole hc
      exact ⟨hupper, fun heq => hmarks (by rw [heq]; decide), hblank⟩
    · have hextension : (".service.ts".toList.all fun e =>
          e.isUpper = false ∧ e ≠ '_' ∧ isBlank e = false) = true := by decide
      exact of_decide_eq_true (List.all_eq_true.1 hextension c hc)

/-- A name that ends in an acronym loses the extension. -/
theorem clientFileName_kebab_iff_acronym :
    Text.isName "HTTPController".toList = true ∧
      clientFileName (clientClassName "HTTPController".toList) = "api-httpservice.ts".toList ∧
      ¬∃ stem, clientFileName (clientClassName "HTTPController".toList) = stem ++ ".service.ts".toList := by
  have hname : Text.isName "HTTPController".toList = true := by decide
  refine ⟨hname, by decide +kernel, ?_⟩
  obtain ⟨front, last, hclass, -, hword, -⟩ := clientFileName_kebab_iff hname
  have hparts : "ApiHTT".toList ++ ['P'] ++ "Service".toList = front ++ [last] ++ "Service".toList :=
    hclass
  have hlast := List.append_inj_right' (List.append_cancel_right hparts) rfl
  rw [hword, ← List.singleton_inj.1 hlast]
  decide

end NestClient
