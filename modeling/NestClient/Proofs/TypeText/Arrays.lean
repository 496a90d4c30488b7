import NestClient.Proofs.Text.Occurs
import NestClient.Proofs.TypeText.Bracket
import NestClient.TypeText.Arrays

/-! What the rewriting of array types keeps: how deep a text goes into angle brackets, where it closes
them, its ends, and the texts that can occur in it.

* `bracketArrays_induction`: the text is left as it is, or its first `Array<…>` is rewritten together
  with what stands in it and behind it.
* `unwrap?_bracketArrays`: no wrapper appears that was not there before. -/

namespace NestClient.TypeText

variable {d : Int} {t : Text}

/-! ## Names that arrays have -/

/-- The symbol would be read as the word for an array if arguments followed it. -/
def isArrayName (symbol : Text) : Bool :=
  match Text.dropTail? "Array".toList symbol with
  | some lead => wordMayStart lead.getLast?
  | none => false

theorem isArrayName_eq_true_iff {symbol : Text} : isArrayName symbol = true ↔
    ∃ lead, symbol = lead ++ "Array".toList ∧ wordMayStart lead.getLast? = true := by
  unfold isArrayName
  cases hdrop : Text.dropTail? "Array".toList symbol with
  | none =>
    refine ⟨fun h => absurd h (by decide), ?_⟩
    rintro ⟨lead, rfl, -⟩
    rw [Text.dropTail?_eq_some_iff.2 rfl] at hdrop
    cases hdrop
  | some lead =>
    obtain rfl := Text.dropTail?_eq_some_iff.1 hdrop
    refine ⟨fun h => ⟨lead, rfl, h⟩, ?_⟩
    rintro ⟨lead', hlead, hword⟩
    rwa [List.append_cancel_right hlead]

theorem isArrayName_append {lead : Text} (h : wordMayStart lead.getLast? = true) :
    isArrayName (lead ++ "Array".toList) = true :=
  isArrayName_eq_true_iff.2 ⟨lead, rfl, h⟩

/-! ## The first array type -/

theorem eq_of_arrayStart? {before : Option Char} {t : Text} {k : Nat}
    (h : arrayStart? before t = some k) :
    ∃ lead body, t = lead ++ (arrayOpen ++ body) ∧ lead.length = k ∧
      wordMayStart (lead.getLast?.or before) = true := by
  induction t generalizing before k with
  | nil => simp [arrayStart?] at h
  | cons c rest ih =>
    rw [arrayStart?] at h
    split at h
    · next hstart =>
      rw [Bool.and_eq_true, List.isPrefixOf_iff_prefix] at hstart
      obtain ⟨hword, body, hbody⟩ := hstart
      cases h
      exact ⟨[], body, hbody.symm, rfl, hword⟩
    · obtain ⟨j, hj, rfl⟩ := Option.map_eq_some_iff.1 h
      obtain ⟨lead, body, rfl, rfl, hword⟩ := ih hj
      refine ⟨c :: lead, body, by rw [List.cons_append], rfl, ?_⟩
      rwa [getLast?_cons_or]

theorem arrayStart?_lead {before : Option Char} {lead t : Text}
    (h : arrayStart? before (lead ++ t) = some lead.length) : arrayStart? before lead = none := by
  induction lead generalizing before with
  | nil => rfl
  | cons c rest ih =>
    rw [List.cons_append, arrayStart?] at h
    rw [arrayStart?]
    split at h
    · simp at h
    next hnot =>
      rw [if_neg, Option.map_eq_none_iff]
      · exact ih (by simpa using h)
      · intro hbegins
        rw [Bool.and_eq_true, List.isPrefixOf_iff_prefix] at hbegins hnot
        exact hnot ⟨hbegins.1, hbegins.2.trans (List.prefix_append (c :: rest) t)⟩

/-- The array type of what stands in the brackets of an `Array<…>`. -/
def arrayOf (inner : Text) : Text := bracketed (Text.trim (bracketArrays inner))

/-- Where the first array type of a text can stand, and what can stand in it. -/
structure ArrayAt (lead inner : Text) : Prop where
  first : arrayStart? none lead = none
  word : wordMayStart lead.getLast? = true
  inside : Wrappable inner

theorem bracketArrays_of_arrayStart? {t : Text} (h : arrayStart? none t = none) :
    bracketArrays t = t := by
  rw [bracketArrays]
  split
  · rfl
  next start hstart => simp [h] at hstart

theorem array_eq (lead inner rest : Text) : lead ++ (arrayOpen ++ (inner ++ '>' :: rest))
    = lead ++ ((arrayOpen ++ (inner ++ ['>'])) ++ rest) := by
  simp only [List.append_assoc, List.cons_append, List.nil_append]

/-- From its first array type on, the text is rewritten if the bracket closes. -/
theorem bracketArrays_of_start {lead body : Text}
    (h : arrayStart? none (lead ++ (arrayOpen ++ body)) = some lead.length) :
    bracketArrays (lead ++ (arrayOpen ++ body)) = match closingOffset (some '<') 1 body with
      | none => lead ++ (arrayOpen ++ body)
      | some size => lead ++ (arrayOf (body.take size) ++ bracketArrays (body.drop (size + 1))) := by
  have hbehind : (lead ++ (arrayOpen ++ body)).drop (lead.length + arrayOpen.length) = body := by
    rw [← List.append_assoc, ← List.length_append, List.drop_left]
  rw [bracketArrays]
  split
  next hnone => simp [h] at hnone
  next start hstart =>
  obtain rfl : lead.length = start := Option.some.inj (h.symm.trans hstart)
  dsimp only
  rw [hbehind, List.take_left]
  split
  next hsize => rw [hsize]
  next size hsize =>
  rw [hsize, List.append_assoc]
  rfl

theorem bracketArrays_of_arrayAt {lead inner rest : Text} (hinner : Wrappable inner)
    (h : arrayStart? none (lead ++ (arrayOpen ++ (inner ++ '>' :: rest))) = some lead.length) :
    bracketArrays (lead ++ (arrayOpen ++ (inner ++ '>' :: rest)))
      = lead ++ (arrayOf inner ++ bracketArrays rest) := by
  have hclose : closingOffset (some '<') 1 (inner ++ '>' :: rest) = some inner.length :=
    closingOffset_one_eq_some_iff.2 ⟨inner, rest, rfl, rfl, hinner⟩
  have hrest : (inner ++ '>' :: rest).drop (inner.length + 1) = rest := by
    rw [← List.drop_drop, List.drop_left, List.drop_one, List.tail_cons]
  rw [bracketArrays_of_start h, hclose]
  dsimp only
  rw [List.take_left, hrest]

theorem bracketArrays_cases (t : Text) : bracketArrays t = t ∨
    ∃ lead inner rest, ArrayAt lead inner ∧ t = lead ++ (arrayOpen ++ (inner ++ '>' :: rest)) ∧
      bracketArrays t = lead ++ (arrayOf inner ++ bracketArrays rest) := by
  cases hstart : arrayStart? none t with
  | none => exact .inl (bracketArrays_of_arrayStart? hstart)
  | some start =>
    obtain ⟨lead, body, rfl, rfl, hword⟩ := eq_of_arrayStart? hstart
    rw [Option.or_none] at hword
    cases hclose : closingOffset (some '<') 1 body with
    | none => exact .inl (by rw [bracketArrays_of_start hstart, hclose])
    | some size =>
      obtain ⟨inner, rest, rfl, rfl, hinner⟩ := closingOffset_one_eq_some_iff.1 hclose
      exact .inr ⟨lead, inner, rest, ⟨arrayStart?_lead hstart, hword, hinner⟩, rfl,
        bracketArrays_of_arrayAt hinner hstart⟩

/-- The text stays as it is, or its first array type is rewritten, and so is what stands in it and
behind it. -/
@[elab_as_elim]
theorem bracketArrays_induction {motive : Text → Prop}
    (same : ∀ t, bracketArrays t = t → motive t)
    (array : ∀ lead inner rest, ArrayAt lead inner →
      bracketArrays (lead ++ (arrayOpen ++ (inner ++ '>' :: rest)))
        = lead ++ (arrayOf inner ++ bracketArrays rest) →
      motive inner → motive rest → motive (lead ++ (arrayOpen ++ (inner ++ '>' :: rest))))
    (t : Text) : motive t := by
  induction hn : t.length using Nat.strongRecOn generalizing t with
  | ind n ih =>
    rcases bracketArrays_cases t with hsame | ⟨lead, inner, rest, hat, rfl, hshown⟩
    · exact same t hsame
    · simp only [List.length_append, List.length_cons] at hn
      exact array lead inner rest hat hshown (ih inner.length (by omega) inner rfl)
        (ih rest.length (by omega) rest rfl)

/-! ## Angle brackets -/

/-- An array's element type in its new place counts as little as in the old one. -/
theorem neutral_bracketed {element : Text} (h : AngleBalanced element) :
    Neutral (bracketed element) := by
  have hsuffix : ∀ b, angleDepth b "[]".toList = 0 ∧ angleDepth b ")[]".toList = 0 := fun b =>
    ⟨angleDepth_eq_zero (by simp), angleDepth_eq_zero (by simp)⟩
  have hparen : ∀ b, angleDepth b ['('] = 0 := fun b => angleDepth_eq_zero (by simp)
  unfold bracketed
  split
  · have happend : '(' :: element ++ ")[]".toList = ['('] ++ (element ++ ")[]".toList) := rfl
    rw [happend]
    refine ⟨fun b => ?_, fun b d hd => ?_, fun b => ?_⟩
    · rw [angleDepth_append, angleDepth_append, hparen, h.angleDepth_eq, (hsuffix _).2]
      rfl
    · rw [staysOpen_append, staysOpen_append, hparen, h.angleDepth_eq, Int.add_zero, Int.add_zero]
      exact ⟨staysOpen_of_not_mem hd (by decide), h.staysOpen hd _,
        staysOpen_of_not_mem hd (by decide)⟩
    · rw [← List.append_assoc, List.getLast?_append]
      exact (by decide : some ']' ≠ some '=')
  · refine ⟨fun b => ?_, fun b d hd => ?_, fun b => ?_⟩
    · rw [angleDepth_append, h.angleDepth_eq, (hsuffix _).1]
      rfl
    · rw [staysOpen_append, h.angleDepth_eq, Int.add_zero]
      exact ⟨h.staysOpen hd _, staysOpen_of_not_mem hd (by decide)⟩
    · rw [List.getLast?_append]
      exact (by decide : some ']' ≠ some '=')

theorem ArrayAt.neutral {lead inner : Text} (h : ArrayAt lead inner) :
    Neutral (arrayOpen ++ (inner ++ ['>'])) := by
  have hopen : ∀ b, angleDepth b arrayOpen = 1 := fun b => by
    cases b with
    | none => decide
    | some c => exact (angleDepth_of_head? (by decide) _).trans (by decide)
  have hlast : ∀ b, inner.getLast?.or (arrayOpen.getLast?.or b) ≠ some '=' := by
    intro b
    cases hinner : inner.getLast? with
    | none => exact (by decide : some '<' ≠ some '=')
    | some c => exact fun he => h.inside.last (hinner.trans he)
  have hclose : ∀ b, angleDepth (inner.getLast?.or (arrayOpen.getLast?.or b)) ['>'] = -1 := fun b => by
    rw [angleDepth_of_ne (hlast b)]
    decide
  refine ⟨fun b => ?_, fun b d hd => ?_, fun b => ?_⟩
  · rw [angleDepth_append, angleDepth_append, hopen, h.inside.balanced.angleDepth_eq, hclose]
    rfl
  · rw [staysOpen_append, staysOpen_append, hopen, h.inside.balanced.angleDepth_eq, Int.add_zero]
    refine ⟨staysOpen_of_not_mem hd (by decide), h.inside.balanced.staysOpen (by omega) _, ?_⟩
    rw [staysOpen_cons, staysOpen_nil, angleWeight_of_ne (hlast b)]
    have hweight : angleWeight none '>' = -1 := by decide
    omega
  · rw [← List.append_assoc, List.getLast?_append]
    exact (by decide : some '>' ≠ some '=')

/-- Rewriting array types changes neither how deep a text goes nor what it leaves open. -/
theorem depth_open_bracketArrays (t : Text) :
    angleDepth none (bracketArrays t) = angleDepth none t ∧
      ∀ d, StaysOpen none d t → StaysOpen none d (bracketArrays t) := by
  induction t using bracketArrays_induction with
  | same t hsame => rw [hsame]; exact ⟨rfl, fun d h => h⟩
  | array lead inner rest hat hshown ihInner ihRest =>
    have hinner := angleBalanced_iff.1 hat.inside.balanced
    have hbalanced : AngleBalanced (bracketArrays inner) :=
      angleBalanced_iff.2 ⟨ihInner.2 1 hinner.1, ihInner.1.trans hinner.2⟩
    have hneutral : Neutral (arrayOf inner) := neutral_bracketed hbalanced.trim
    rw [hshown, array_eq]
    refine ⟨?_, fun d h => ?_⟩
    · rw [hneutral.angleDepth_append, hat.neutral.angleDepth_append, ihRest.1]
    · rw [hat.neutral.staysOpen_append] at h
      rw [hneutral.staysOpen_append]
      exact ⟨h.1, ihRest.2 _ h.2⟩

theorem AngleBalanced.bracketArrays (h : AngleBalanced t) : AngleBalanced (bracketArrays t) := by
  rw [angleBalanced_iff] at h ⊢
  obtain ⟨hdepth, hopen⟩ := depth_open_bracketArrays t
  exact ⟨hopen 1 h.1, hdepth.trans h.2⟩

theorem ArrayAt.neutral_arrayOf {lead inner : Text} (h : ArrayAt lead inner) :
    Neutral (arrayOf inner) :=
  neutral_bracketed h.inside.balanced.bracketArrays.trim

/-- A bracket that closes with the rewritten text closes with the text. -/
theorem ClosesLast.of_bracketArrays (hd : 1 ≤ d) (h : ClosesLast none d (bracketArrays t)) :
    ClosesLast none d t := by
  induction t using bracketArrays_induction generalizing d with
  | same t hsame => rwa [hsame] at h
  | array lead inner rest hat hshown ihInner ihRest =>
    rw [hshown, hat.neutral_arrayOf.closesLast_append hd] at h
    rw [array_eq, hat.neutral.closesLast_append hd]
    exact ⟨h.1, ihRest h.1.depth h.2⟩

/-! ## The ends of the text -/

theorem bracketArrays_nil : bracketArrays [] = [] := by
  rcases bracketArrays_cases [] with h | ⟨lead, inner, rest, -, h, -⟩
  · exact h
  · obtain ⟨-, hopen⟩ := List.append_eq_nil_iff.1 h.symm
    exact absurd (List.append_eq_nil_iff.1 hopen).1 (by decide)

theorem head?_bracketed (element : Text) {c : Char} (h : (bracketed element).head? = some c) :
    element.head? = some c ∨ isBlank c = false := by
  unfold bracketed at h
  split at h
  · obtain rfl : '(' = c := Option.some.inj h
    exact .inr (by decide)
  · cases element with
    | nil =>
      obtain rfl : '[' = c := Option.some.inj h
      exact .inr (by decide)
    | cons b element => exact .inl h

theorem getLast?_bracketed (element : Text) : (bracketed element).getLast? = some ']' := by
  unfold bracketed
  split <;> rw [List.getLast?_append] <;> rfl

theorem getLast?_bracketArrays (h : ∀ c, t.getLast? = some c → isBlank c = false) :
    ∀ c, (bracketArrays t).getLast? = some c → isBlank c = false := by
  induction t using bracketArrays_induction with
  | same t hsame => rwa [hsame]
  | array lead inner rest hat hshown ihInner ihRest =>
    have hrest : ∀ c, rest.getLast? = some c → isBlank c = false := by
      intro c hc
      refine h c ?_
      rw [array_eq, List.getLast?_append, List.getLast?_append, hc]
      rfl
    intro c hc
    rw [hshown, List.getLast?_append, List.getLast?_append, arrayOf, getLast?_bracketed] at hc
    cases hlast : (bracketArrays rest).getLast? with
    | none =>
      rw [hlast] at hc
      obtain rfl : ']' = c := Option.some.inj hc
      decide
    | some b =>
      rw [hlast] at hc
      exact ihRest hrest c (hlast.trans hc)

theorem trimmed_bracketArrays (h : Text.Trimmed t) : Text.Trimmed (bracketArrays t) := by
  refine ⟨?_, getLast?_bracketArrays h.last⟩
  rcases bracketArrays_cases t with hsame | ⟨lead, inner, rest, -, rfl, hshown⟩
  · rw [hsame]
    exact h.head
  · intro c hc
    rw [hshown, List.head?_append, List.head?_append] at hc
    cases lead with
    | cons b lead => exact h.head c hc
    | nil =>
      cases hfirst : (arrayOf inner).head? with
      | none =>
        rw [List.head?_eq_none_iff] at hfirst
        have hlast := getLast?_bracketed (Text.trim (bracketArrays inner))
        rw [arrayOf] at hfirst
        rw [hfirst] at hlast
        simp at hlast
      | some b =>
        rw [hfirst] at hc
        obtain rfl : b = c := Option.some.inj hc
        rcases head?_bracketed _ hfirst with hb | hb
        · exact (Text.trimmed_trim _).head b hb
        · exact hb

/-! ## Wrappers -/

theorem not_mem_of_isWord {wrapper : Text} (hw : ∀ c ∈ wrapper, isWord c = true) {c : Char}
    (hc : isWord c = false) : c ∉ wrapper := by
  intro hmem
  rw [hw c hmem] at hc
  exact absurd hc (by decide)

/-- A wrapper that opens in the element type of an array closes there as well. -/
theorem ne_wrapper_of_bracketed {wrapper element inside rest : Text}
    (hw : ∀ c ∈ wrapper, isWord c = true) (he : AngleBalanced element)
    (hcloses : ClosesLast none 1 inside) :
    bracketed element ++ rest ≠ wrapper ++ '<' :: inside := by
  intro h
  unfold bracketed at h
  split at h
  · cases wrapper with
    | nil => exact absurd (List.cons.inj h).1 (by decide)
    | cons c wrapper =>
      obtain rfl : '(' = c := (List.cons.inj h).1
      exact absurd (hw '(' List.mem_cons_self) (by decide)
  · have hsquare : '[' ∉ wrapper ++ ['<'] := by
      simp [not_mem_of_isWord hw (by decide : isWord '[' = false)]
    have hparts : [] ++ ((wrapper ++ ['<']) ++ inside) = element ++ '[' :: (']' :: rest) := by
      rw [List.nil_append, ← List.append_cons, ← h, List.append_assoc]
      rfl
    rcases Text.cons_append_cases hsquare hparts with ⟨between, rfl, rfl⟩ | ⟨_, hnil, -⟩
    · have hopen := hcloses.isOpen between (List.prefix_append _ _) (by simp)
      have hwrapper : angleDepth none wrapper = 0 := by
        refine angleDepth_eq_zero fun c hc => ⟨?_, ?_⟩ <;> rintro rfl <;>
          exact not_mem_of_isWord hw (by decide) hc
      have htotal := he.total
      rw [List.nil_append, List.append_assoc, angleDepth_append, hwrapper, List.singleton_append,
        angleDepth, angleDepth_of_ne (by decide)] at htotal
      have hweight : ∀ b, angleWeight b '<' = 1 := fun b => rfl
      rw [hweight] at htotal
      omega
    · simp at hnil

/-- A wrapper around the rewritten text is one around the text. -/
theorem unwrap?_bracketArrays {wrapper : Text} (hw : ∀ c ∈ wrapper, isWord c = true)
    (ht : Text.Trimmed t) (h : unwrap? wrapper t = none) : unwrap? wrapper (bracketArrays t) = none := by
  rw [Option.eq_none_iff_forall_ne_some] at h ⊢
  intro inner' hinner'
  obtain ⟨inside, hwhole, hinside, -⟩ := unwrap?_eq_some_iff.1 hinner'
  rw [(trimmed_bracketArrays ht).trim_eq] at hwhole
  have hcloses := closesLast_concat_iff.2 hinside
  -- a text that the wrapper begins is unwrapped if its bracket closes last
  have hnot : ∀ body, t = wrapper ++ '<' :: body → ¬ClosesLast none 1 body := by
    intro body hbody hclosesBody
    obtain ⟨inside', rfl⟩ := hclosesBody.exists_concat (by decide)
    have hinside' := closesLast_concat_iff.1 hclosesBody
    exact h _ (unwrap?_eq_some_iff.2 ⟨inside', ht.trim_eq.trans hbody, hinside', rfl⟩)
  rcases bracketArrays_cases t with hsame | ⟨lead, inner, rest, hat, rfl, hshown⟩
  · rw [hsame] at hwhole
    exact hnot _ hwhole hcloses
  rw [hshown] at hwhole
  rcases List.append_eq_append_iff.1 hwhole with ⟨more, hwrapper, harray⟩ | ⟨more, hlead, hbehind⟩
  · -- the array type begins in the wrapper's word, thus with it
    cases hword : lead.getLast? with
    | some c =>
      have hc := hat.word
      rw [hword, wordMayStart, hw c (hwrapper ▸ List.mem_append_left more (List.mem_of_getLast? hword))]
        at hc
      exact absurd hc (by decide)
    | none =>
      rw [List.getLast?_eq_none_iff] at hword
      rw [hword, List.nil_append] at hwrapper
      rw [← hwrapper] at harray
      exact ne_wrapper_of_bracketed hw hat.inside.balanced.bracketArrays.trim hcloses harray
  · cases more with
    | nil =>
      -- it takes the place of the wrapper's bracket
      exact @ne_wrapper_of_bracketed [] _ _ _ (by simp) hat.inside.balanced.bracketArrays.trim hcloses
        hbehind.symm
    | cons c more =>
      obtain ⟨rfl, hinside⟩ := List.cons.inj hbehind
      -- it stands behind the wrapper's bracket
      refine hnot (more ++ (arrayOpen ++ (inner ++ '>' :: rest))) (by rw [hlead]; simp) ?_
      rw [show inside ++ ['>'] = more ++ (arrayOf inner ++ bracketArrays rest) from hinside,
        hat.neutral_arrayOf.closesLast_append (by decide)] at hcloses
      rw [array_eq, hat.neutral.closesLast_append (by decide)]
      exact ⟨hcloses.1, hcloses.2.of_bracketArrays hcloses.1.depth⟩

/-! ## References to modules -/

/-- The beginning of a reference to a module. -/
def importOpen : Text := "import(".toList

theorem infix_importOpen_trim : importOpen <:+: Text.trim t ↔ importOpen <:+: t :=
  Text.infix_trim (by decide) ⟨by rintro c ⟨⟩; decide, by rintro c ⟨⟩; decide⟩

theorem infix_bracketed {element : Text} :
    importOpen <:+: bracketed element ↔ importOpen <:+: element := by
  have hsquare : ¬importOpen <:+: "]".toList := by decide
  have hparen : ¬importOpen <:+: ['('] := by decide
  have hbehind : ¬importOpen <:+: "[]".toList := by decide
  unfold bracketed
  split
  · have happend : '(' :: element ++ ")[]".toList = ['('] ++ (element ++ ')' :: "[]".toList) := rfl
    have hfront : ∀ c, ['('].getLast? = some c → c ∉ importOpen.dropLast := by
      rintro c ⟨⟩
      decide
    rw [happend, Text.infix_append hfront, Text.infix_append_cons (by decide)]
    simp only [hparen, hbehind, false_or, or_false]
  · have happend : element ++ "[]".toList = element ++ '[' :: "]".toList := rfl
    rw [happend, Text.infix_append_cons (by decide)]
    simp only [hsquare, or_false]

/-- A reference to a module lies on one side of an array type's word. -/
theorem ArrayAt.infix_append {lead inner : Text} (h : ArrayAt lead inner) (t : Text) :
    importOpen <:+: lead ++ t ↔ importOpen <:+: lead ∨ importOpen <:+: t := by
  refine Text.infix_append fun c hc hmem => ?_
  have hletters : ∀ c ∈ importOpen.dropLast, isWord c = true := List.all_eq_true.1 (by decide)
  have hword := h.word
  rw [hc, wordMayStart, hletters c hmem] at hword
  exact absurd hword (by decide)

/-- Rewriting array types neither adds a reference to a module nor takes one away. -/
theorem infix_bracketArrays : importOpen <:+: bracketArrays t ↔ importOpen <:+: t := by
  induction t using bracketArrays_induction with
  | same t hsame => rw [hsame]
  | array lead inner rest hat hshown ihInner ihRest =>
    have hopen : ∀ c, arrayOpen.getLast? = some c → c ∉ importOpen.dropLast := by
      rintro c ⟨⟩
      decide
    have harray : ¬importOpen <:+: arrayOpen := by decide
    have hlast : ∀ c, (arrayOf inner).getLast? = some c → c ∉ importOpen.dropLast := by
      rw [arrayOf, getLast?_bracketed]
      rintro c ⟨⟩
      decide
    rw [hshown, hat.infix_append, hat.infix_append, Text.infix_append hlast, Text.infix_append hopen,
      Text.infix_append_cons (by decide), arrayOf, infix_bracketed, ihRest,
      infix_importOpen_trim, ihInner]
    simp only [harray, false_or]

end NestClient.TypeText
