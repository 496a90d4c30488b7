import Mathlib.Data.List.Flatten
import NestClient.Proofs.TypeText.Cut
import NestClient.Proofs.TypeText.ExactImports

/-! String-literal types. The scanners that look for brackets, separators, arrays and module references
do not know of literals: what a literal holds counts for them like any other text.

* `bracketArrays_array_stringType`: when an array has a literal for its element type.
* `stripMissing_stringType`: when a literal is one member beside the missing value.
* `Resolver.scan_stringType_iff`: when a literal goes through each scanner as one piece. -/

namespace NestClient.TypeText

variable {s t : Text}

/-! ## Literals -/

def stringType (s : Text) : Text := '\x27' :: (s ++ ['\x27'])

theorem trimmed_stringType (s : Text) : Text.Trimmed (stringType s) := by
  constructor
  · rintro c ⟨⟩
    decide
  · intro c hc
    rw [stringType, ← List.cons_append, List.getLast?_concat] at hc
    obtain rfl := Option.some.inj hc
    decide

theorem getLast?_stringType (s : Text) : (stringType s).getLast? = some '\x27' := by
  rw [stringType, ← List.cons_append, List.getLast?_concat]

theorem stringType_inj {s t : Text} (h : stringType s = stringType t) : s = t :=
  List.append_cancel_right (List.cons.inj h).2

theorem wrappable_stringType : Wrappable (stringType s) ↔ AngleBalanced s := by
  have hfirst : angleWeight none '\x27' = 0 := by decide
  have hlast : ∀ before, angleWeight before '\x27' = 0 := fun before => rfl
  have hdepth : angleDepth none (stringType s) = angleDepth none s := by
    rw [stringType, angleDepth, hfirst, angleDepth_of_ne (by decide), angleDepth_append, angleDepth, hlast]
    simp only [angleDepth]
    omega
  constructor
  · intro h
    obtain ⟨hopen, hzero⟩ := angleBalanced_iff.1 h.balanced
    rw [stringType, staysOpen_cons, hfirst, staysOpen_append] at hopen
    exact angleBalanced_iff.2 ⟨hopen.2.1.of_ne (by decide), hdepth ▸ hzero⟩
  · intro h
    refine ⟨angleBalanced_iff.2 ⟨?_, hdepth.trans h.total⟩, by rw [getLast?_stringType]; decide⟩
    rw [stringType, staysOpen_cons, hfirst, staysOpen_append, h.angleDepth_eq, staysOpen_cons, hlast,
      staysOpen_nil]
    exact ⟨by decide, h.staysOpen (by decide) _, by decide, by decide⟩

theorem bracketArrays_stringType (h : ClosesAngles s) :
    bracketArrays (stringType s) = stringType (bracketArrays s) := by
  have hquote : '\x27' ∉ arrayOpen := by decide
  have hword : isWord '\x27' = false := by decide
  have hempty : ClosesAngles [] := closesAngles_of_not_mem List.not_mem_nil
  have hfirst := bracketArrays_append_cons hquote hword hempty (s ++ ['\x27'])
  have hlast := bracketArrays_append_cons hquote hword h []
  rw [hlast, bracketArrays_nil] at hfirst
  exact hfirst

theorem standsOpen_stringType {c : Char} (hc : c ≠ '\x27') :
    StandsOpen c (stringType s) ↔ StandsOpen c s := by
  have hquote : bracketWeight none '\x27' = 0 := by decide
  constructor
  · rintro ⟨front, rest, heq, hdepth⟩
    cases front with
    | nil => exact absurd (List.cons.inj heq).1 (Ne.symm hc)
    | cons b front =>
      obtain ⟨rfl, hbody⟩ := List.cons.inj heq
      rw [bracketDepth, hquote, Int.zero_add, bracketDepth_of_ne (by decide)] at hdepth
      rcases List.eq_nil_or_concat rest with rfl | ⟨inside, last, rfl⟩
      · exact absurd (List.append_inj' hbody rfl).2 (by simpa using Ne.symm hc)
      · have hwhole : s ++ ['\x27'] = (front ++ c :: inside) ++ [last] := by simpa using hbody
        exact ⟨front, inside, (List.append_inj' hwhole rfl).1, hdepth⟩
  · rintro ⟨front, rest, rfl, hdepth⟩
    refine ⟨'\x27' :: front, rest ++ ['\x27'], by simp [stringType], ?_⟩
    rw [bracketDepth, hquote, Int.zero_add, bracketDepth_of_ne (by decide), hdepth]

theorem bracketDepth_stringType (s : Text) :
    bracketDepth none (stringType s) = bracketDepth none s := by
  have hquote : ∀ before, bracketWeight before '\x27' = 0 := fun before => rfl
  rw [stringType, bracketDepth, hquote, bracketDepth_of_ne (by decide), bracketDepth_append, bracketDepth,
    hquote]
  simp only [bracketDepth]
  omega

/-! ## The element type of an array -/

/-- Where one pair of square brackets is all that the rewriting adds, nothing is rewritten behind it. -/
theorem bracketArrays_behind {inner rest : Text} (hinside : t ++ ['>'] = inner ++ '>' :: rest)
    (heq : arrayOf inner ++ bracketArrays rest = t ++ "[]".toList) : bracketArrays rest = rest := by
  have hcount := congrArg (List.count '[') hinside
  have hshown := congrArg (List.count '[') heq
  have hinner := count_le_bracketArrays inner
  have hclose : (['>'] : Text).count '[' = 0 := by decide
  have hrest : ('>' :: rest).count '[' = rest.count '[' := List.count_cons_of_ne (by decide)
  have hsuffix : "[]".toList.count '[' = 1 := by decide
  rw [List.count_append, List.count_append, hclose, hrest] at hcount
  rw [List.count_append, List.count_append, count_arrayOf, hsuffix] at hshown
  exact bracketArrays_eq_self_of_count (by omega)

/-- The array of a literal that is not balanced is not written with square brackets behind it. -/
theorem bracketArrays_array_ne (hnot : ¬AngleBalanced s) :
    bracketArrays (arrayOpen ++ (stringType s ++ ['>'])) ≠ stringType s ++ "[]".toList := by
  intro heq
  rcases bracketArrays_cases (arrayOpen ++ (stringType s ++ ['>'])) with
    hsame | ⟨lead, inner, rest, hat, hwhole, hshown⟩
  · rw [hsame] at heq
    exact absurd (List.cons.inj heq).1 (by decide)
  · rw [hshown] at heq
    cases lead with
    | cons c lead =>
      obtain rfl : 'A' = c := (List.cons.inj hwhole).1
      exact absurd (List.cons.inj heq).1 (by decide)
    | nil =>
      have hinside : stringType s ++ ['>'] = inner ++ '>' :: rest := List.append_cancel_left hwhole
      rcases List.eq_nil_or_concat rest with rfl | ⟨behind, last, rfl⟩
      · rw [← List.append_cancel_right hinside] at hat
        exact hnot (wrappable_stringType.1 hat.inside)
      · -- the bracket closes within the literal, and behind it the text ends as it did
        have hend := congrArg List.getLast? heq
        have hlast := congrArg List.getLast? hinside
        rw [List.nil_append, bracketArrays_behind hinside heq, List.concat_eq_append, ← List.append_assoc,
          List.getLast?_concat, List.getLast?_append] at hend
        rw [List.concat_eq_append, ← List.cons_append, ← List.append_assoc, List.getLast?_concat,
          List.getLast?_concat] at hlast
        obtain rfl := Option.some.inj hlast
        have hchars : some '>' = some ']' := hend
        exact absurd hchars (by decide)

theorem needsParens_stringType_eq_false_iff :
    needsParens (stringType s) = false ↔ ¬StandsOpen '|' s ∧ ¬StandsOpen '&' s := by
  rw [needsParens_eq_false_iff, standsOpen_stringType (by decide), standsOpen_stringType (by decide)]

/-- A literal is the element type of an array where its text is balanced and says nothing of arrays,
unions and intersections. -/
theorem bracketArrays_array_stringType (s : Text) :
    bracketArrays (arrayOpen ++ (stringType s ++ ['>'])) = stringType s ++ "[]".toList ↔
      AngleBalanced s ∧ ¬OpensArray s ∧ ¬StandsOpen '|' s ∧ ¬StandsOpen '&' s := by
  by_cases hbalanced : AngleBalanced s
  · have hcloses := hbalanced.closesAngles
    have hwhole := bracketArrays_word (s := []) List.not_mem_nil rfl (wrappable_stringType.2 hbalanced) []
    rw [List.nil_append, List.nil_append, bracketArrays_nil, List.append_nil, arrayOf,
      bracketArrays_stringType hcloses, (trimmed_stringType _).trim_eq] at hwhole
    rw [hwhole, ← bracketArrays_eq_self_iff hcloses.closesArrays, bracketed]
    constructor
    · intro heq
      split at heq
      next => exact absurd (List.cons.inj heq).1 (by decide)
      next hparens =>
        have hsame := stringType_inj (List.append_cancel_right heq)
        rw [hsame, Bool.not_eq_true] at hparens
        exact ⟨hbalanced, hsame, needsParens_stringType_eq_false_iff.1 hparens⟩
    · rintro ⟨-, hsame, hopen⟩
      rw [hsame, needsParens_stringType_eq_false_iff.2 hopen, if_neg (by decide)]
  · exact iff_of_false (bracketArrays_array_ne hbalanced) fun h => hbalanced h.1

/-! ## The missing value beside a literal -/

/-- The separator and the member that a union with the missing value ends in. -/
def orMissing : Text := " | undefined".toList

theorem orMissing_eq : orMissing = ' ' :: '|' :: ' ' :: missingValue := by decide

theorem cut_orMissing (before : Option Char) (d : Int) : cut (· = '|') before d orMissing =
    if d = 0 then [[' '], ' ' :: missingValue] else [orMissing] := by
  have hbar : ∀ b, bracketWeight b '|' = 0 := bracketWeight_separator (by decide)
  have hblank : bracketWeight before ' ' = 0 := by
    rw [bracketWeight_of_not_mem (by decide)]
  have hrest : cut (· = '|') (some '|') d (' ' :: missingValue) = [' ' :: missingValue] := by
    refine cut_eq_singleton ((length_cut_eq_one_iff hbar).2 fun front rest heq => ?_)
    have hmem : '|' ∈ ' ' :: missingValue := heq ▸ List.mem_append_right front List.mem_cons_self
    exact absurd hmem (by decide)
  rw [orMissing_eq, cut_cons, if_neg (by simp), hblank, Int.add_zero, cut_cons, hbar, Int.add_zero, hrest]
  by_cases hd : d = 0
  · rw [if_pos ⟨rfl, rfl, hd⟩, if_pos hd]
    rfl
  · rw [if_neg fun h => hd h.2.2, if_neg hd]
    rfl

/-- Behind a literal that leaves no bracket open, the missing value is one more member. -/
theorem splitTopLevel_orMissing (h : bracketDepth none s = 0) :
    splitTopLevel '|' (stringType s ++ orMissing) = splitTopLevel '|' (stringType s) ++ [missingValue] := by
  obtain ⟨front, last, first, more, hliteral, htail, hwhole⟩ :=
    cut_append (· = '|') none 0 (stringType s) orMissing
  rw [bracketDepth_stringType, h, cut_orMissing, if_pos (Int.add_zero 0)] at htail
  obtain ⟨rfl, rfl⟩ := List.cons.inj htail
  rw [splitTopLevel, splitTopLevel, splitTopLevelBy, splitTopLevelBy, hwhole, hliteral, List.map_append,
    List.map_append, List.map_cons, List.map_singleton, List.map_singleton,
    Text.trim_concat_blank (by decide), List.append_assoc]
  rfl

/-- Behind one that leaves a bracket open, or closes one too many, it goes on with the last piece. -/
theorem exists_splitTopLevel_orMissing (h : bracketDepth none s ≠ 0) :
    ∃ front last, splitTopLevel '|' (stringType s ++ orMissing) = front ++ [last] ∧
      last ≠ missingValue ∧ last.getLast? = some 'd' := by
  obtain ⟨front, last, first, more, hliteral, htail, hwhole⟩ :=
    cut_append (· = '|') none 0 (stringType s) orMissing
  rw [bracketDepth_stringType, cut_orMissing, if_neg (by simpa using h)] at htail
  obtain ⟨rfl, rfl⟩ := List.cons.inj htail
  have hfirst : ∀ c, "| undefined".toList.head? = some c → isBlank c = false := by
    rintro c ⟨⟩
    decide
  have hlast : ∀ c, "| undefined".toList.getLast? = some c → isBlank c = false := by
    rintro c ⟨⟩
    decide
  obtain ⟨lead, tail, htrim, hnil⟩ := Text.trim_append (by decide) hfirst hlast (last ++ [' ']) []
  have hpiece : Text.trim (last ++ orMissing) = lead ++ "| undefined".toList := by
    rw [List.prefix_nil.1 hnil, List.append_nil, List.append_assoc] at htrim
    exact htrim
  refine ⟨front.map Text.trim, lead ++ "| undefined".toList, ?_, fun heq => ?_, ?_⟩
  · rw [splitTopLevel, splitTopLevelBy, hwhole, List.map_append, List.map_singleton, hpiece]
  · have hbar : '|' ∈ lead ++ "| undefined".toList := List.mem_append_right lead (by decide)
    rw [heq] at hbar
    exact absurd hbar (by decide)
  · rw [List.getLast?_append]
    rfl

theorem count_splitTopLevel (t : Text) :
    t.count '|' + 1 = (splitTopLevel '|' t).length + (splitTopLevel '|' t).flatten.count '|' := by
  have hjoin := Text.count_join (cut_ne_nil (· = '|') none 0 t) ['|'] '|'
  have htrim : (((cut (· = '|') none 0 t).map Text.trim).flatten).count '|'
      = (cut (· = '|') none 0 t).flatten.count '|' := by
    rw [List.count_flatten, List.count_flatten, List.map_map]
    congr 1
    exact List.map_congr_left fun piece _ => Text.count_trim (by decide) piece
  rw [join_cut, List.count_singleton_self, Nat.mul_one] at hjoin
  rw [splitTopLevel, splitTopLevelBy, htrim, List.length_map]
  exact hjoin

/-- Members that are left out take their bars with them. -/
theorem eq_self_of_join_kept {keep : Text → Bool}
    (h : Text.join " | ".toList ((splitTopLevel '|' t).filter keep) = t)
    (hne : (splitTopLevel '|' t).filter keep ≠ []) :
    (splitTopLevel '|' t).filter keep = splitTopLevel '|' t := by
  have hsub : ((splitTopLevel '|' t).filter keep).Sublist (splitTopLevel '|' t) := List.filter_sublist
  refine hsub.eq_of_length_le ?_
  have hflat : ((splitTopLevel '|' t).filter keep).flatten.count '|'
      ≤ (splitTopLevel '|' t).flatten.count '|' := hsub.flatten.count_le '|'
  have hjoin := Text.count_join hne " | ".toList '|'
  have hbar : " | ".toList.count '|' = 1 := by decide
  have hwhole := count_splitTopLevel t
  rw [h, hbar, Nat.mul_one] at hjoin
  omega

/-- Where the brackets in a literal do not match, the missing value is not found beside it. -/
theorem stripMissing_stringType_ne (hdepth : bracketDepth none s ≠ 0) :
    stripMissing (stringType s ++ orMissing) ≠ (stringType s, true) := by
  intro heq
  obtain ⟨front, last, hsplit, hlast, hend⟩ := exists_splitTopLevel_orMissing hdepth
  unfold stripMissing at heq
  dsimp only at heq
  split at heq
  next => exact absurd (congrArg Prod.snd heq) Bool.false_ne_true
  next =>
    have hkeep : [last].filter (· ≠ missingValue) = [last] :=
      List.filter_eq_self.2 (by simpa using hlast)
    have hne : last ≠ [] := by
      rintro rfl
      cases hend
    have hjoin := congrArg (fun found => found.1.getLast?) heq
    dsimp only at hjoin
    rw [hsplit, List.filter_append, hkeep, Text.getLast?_join_concat hne, hend,
      getLast?_stringType] at hjoin
    exact absurd hjoin (by decide)

/-- A literal stands beside the missing value as one member where the brackets in it match, and where it
is what its members make up when they are joined again; none of these is the missing value itself. -/
theorem stripMissing_stringType (s : Text) :
    stripMissing (stringType s ++ orMissing) = (stringType s, true) ↔
      bracketDepth none s = 0 ∧
        Text.join " | ".toList (splitTopLevel '|' (stringType s)) = stringType s ∧
        missingValue ∉ splitTopLevel '|' (stringType s) := by
  by_cases hdepth : bracketDepth none s = 0
  · unfold stripMissing
    dsimp only
    have hnone : ([missingValue] : List Text).filter (· ≠ missingValue) = [] := by decide
    rw [splitTopLevel_orMissing hdepth, List.filter_append, hnone, List.append_nil]
    have hfewer : ((splitTopLevel '|' (stringType s)).filter (· ≠ missingValue)).length
        ≠ (splitTopLevel '|' (stringType s) ++ [missingValue]).length := by
      have hle := List.length_filter_le (· ≠ missingValue) (splitTopLevel '|' (stringType s))
      rw [List.length_append, List.length_singleton]
      omega
    constructor
    · intro heq
      split at heq
      next => exact absurd (congrArg Prod.snd heq) Bool.false_ne_true
      next hkept =>
        rw [Bool.or_eq_true, not_or, List.isEmpty_iff] at hkept
        have hjoin := congrArg Prod.fst heq
        have hall := eq_self_of_join_kept hjoin hkept.2
        refine ⟨hdepth, by rw [hall] at hjoin; exact hjoin, fun hmem => ?_⟩
        rw [← hall, List.mem_filter] at hmem
        exact absurd hmem.2 (by decide)
    · rintro ⟨-, hjoin, hmissing⟩
      have hall : (splitTopLevel '|' (stringType s)).filter (· ≠ missingValue)
          = splitTopLevel '|' (stringType s) := by
        refine List.filter_eq_self.2 fun member hmember => decide_eq_true ?_
        rintro rfl
        exact hmissing hmember
      rw [hall] at hfewer ⊢
      rw [if_neg, hjoin]
      rw [Bool.or_eq_true, not_or, List.isEmpty_iff, decide_eq_true_eq]
      exact ⟨hfewer, ne_nil_splitTopLevel _ _⟩
  · exact iff_of_false (stripMissing_stringType_ne hdepth) fun h => hdepth h.1

/-! ## The result of a deferred literal -/

/-- A literal without quotes in it holds no reference: both quotes of one would have to follow. -/
theorem references_stringType (hs : ∀ c ∈ s, isQuote c = false) : references (stringType s) = [] := by
  refine references_eq_nil_of_not_infix ?_
  rintro written module symbol ⟨before, opening, closing, after, rfl, -, hopen, -, -, hclose, -⟩ hin
  obtain ⟨lead, tail, heq⟩ := hin
  have hinside : s.countP isQuote = 0 := List.countP_eq_zero.2 fun c hc => by rw [hs c hc]; decide
  have hcount := congrArg (List.countP isQuote) heq
  have hquote : isQuote '\x27' = true := rfl
  simp only [stringType, List.countP_append, List.countP_cons, hopen, hclose, hquote, hinside,
    List.countP_nil, if_true] at hcount
  -- the text begins with a quote, and only two are there
  cases lead with
  | nil =>
    have hfirst : 'i' = '\x27' := (List.cons.inj heq).1
    exact absurd hfirst (by decide)
  | cons c lead =>
    obtain ⟨rfl, -⟩ := List.cons.inj heq
    rw [List.countP_cons, if_pos hquote] at hcount
    omega

namespace Resolver

theorem resolveLocal_stringType (r : Resolver) (s : Text) (available : List Text) :
    (r.resolveLocal (stringType s) available).expression = stringType s := by
  have hsymbol : ∀ symbol, (withSymbol (stringType s) symbol available).expression = stringType s := by
    rintro (_ | symbol) <;> rfl
  unfold resolveLocal
  split
  · exact hsymbol _
  · split
    · exact hsymbol _
    · rw [if_neg]
      rw [Bool.or_eq_true, decide_eq_true_eq, decide_eq_true_eq]
      rintro (heq | heq) <;> exact absurd (List.cons.inj heq).1 (by decide)

theorem resolveValue_stringType (r : Resolver) (hs : ∀ c ∈ s, isQuote c = false)
    (available : List Text) :
    importOpen <:+: s ∧ r.resolveValue (stringType s) available = .any ∨
      ¬importOpen <:+: s ∧ (r.resolveValue (stringType s) available).expression = stringType s := by
  have hoccurs : importOpen <:+: stringType s ↔ importOpen <:+: s := by
    have hquote : '\x27' ∉ importOpen := by decide
    have hempty : ¬importOpen <:+: [] := by decide
    have hfirst : importOpen <:+: stringType s ↔ importOpen <:+: [] ∨ importOpen <:+: s ++ ['\x27'] :=
      Text.infix_append_cons (s := []) hquote
    rw [hfirst, Text.infix_append_cons hquote]
    simp only [hempty, false_or, or_false]
  by_cases hin : importOpen <:+: s
  · refine .inl ⟨hin, r.resolveValue_of_not_shared ?_ (hoccurs.2 hin) available⟩
    rintro ⟨ref, href, -⟩
    rw [references_stringType hs] at href
    exact absurd href List.not_mem_nil
  · refine .inr ⟨hin, ?_⟩
    rw [r.resolveValue_of_not_infix (mt hoccurs.1 hin), r.resolveLocal_stringType]

/-- A text is not resolved to one with another first character, unless it becomes `any`. -/
theorem head?_expression_resolveValue (r : Resolver) {c : Char} (hc : c ≠ 'i') (rest : Text)
    (available : List Text) :
    r.resolveValue (c :: rest) available = .any ∨
      (r.resolveValue (c :: rest) available).expression.head? = some c := by
  by_cases hshared : r.RefersToShared (c :: rest)
  · rcases r.resolveValue_of_shared hshared available with ⟨hany, -⟩ | ⟨hshown, -⟩
    · exact .inl hany
    · rw [hshown, r.shown_cons_of_ne hc]
      exact .inr rfl
  · by_cases hin : importOpen <:+: c :: rest
    · exact .inl (r.resolveValue_of_not_shared hshared hin available)
    · rw [r.resolveValue_of_not_infix hin]
      rcases r.expression_resolveLocal (c :: rest) available with h | h
      · rw [h]
        exact .inr rfl
      · exact .inl h

theorem undefer_stringType (s : Text) : undefer (stringType s) = stringType s := by
  have hlayer : unwrap? deferred (stringType s) = none := by
    rw [Option.eq_none_iff_forall_ne_some]
    intro inner hinner
    obtain ⟨inside, heq, -⟩ := unwrap?_eq_some_iff.1 hinner
    rw [(trimmed_stringType s).trim_eq] at heq
    exact absurd (List.cons.inj heq).1 (by decide)
  rw [undefer_eq, hlayer]

/-- A literal that is not balanced keeps its deferral. -/
theorem undefer_deferredOf_stringType (hnot : ¬AngleBalanced s) :
    undefer (deferredOf (stringType s)) = deferredOf (stringType s) := by
  have hlayer : unwrap? deferred (deferredOf (stringType s)) = none := by
    rw [Option.eq_none_iff_forall_ne_some]
    intro inner hinner
    obtain ⟨inside, hwhole, hinside, -⟩ := unwrap?_eq_some_iff.1 hinner
    rw [(trimmed_deferredOf (stringType s)).trim_eq, deferredOf] at hwhole
    have hsame := List.append_cancel_right (List.cons.inj (List.append_cancel_left hwhole)).2
    exact hnot (wrappable_stringType.1 (hsame ▸ hinside))
  rw [undefer_eq, hlayer]

/-- A deferred literal is resolved to the literal where its text is balanced and says nothing of arrays
and modules. -/
theorem resolve_deferredOf_stringType (r : Resolver) (hs : ∀ c ∈ s, isQuote c = false)
    (available : List Text) :
    (r.resolve (deferredOf (stringType s)) available).expression = stringType s ↔
      AngleBalanced s ∧ ¬OpensArray s ∧ ¬importOpen <:+: s := by
  have htrim := (trimmed_deferredOf (stringType s)).trim_eq
  have hne : Text.trim (deferredOf (stringType s)) ≠ [] := by
    rw [htrim, deferredOf]
    simp
  rw [r.resolve_eq hne, htrim]
  by_cases hbalanced : AngleBalanced s
  · have hcloses := hbalanced.closesAngles
    have hundefer : undefer (deferredOf (stringType s)) = stringType s := by
      rw [undefer_eq, unwrap?_deferredOf (wrappable_stringType.2 hbalanced), (trimmed_stringType s).trim_eq]
      exact undefer_stringType s
    have hbrackets : ∀ c ∈ "()[]".toList, isQuote c = false :=
      List.all_iff_forall_prop.1 (by decide)
    have hquotes : ∀ c ∈ bracketArrays s, isQuote c = false :=
      fun c hc => (mem_bracketArrays hc).elim (hs c) (hbrackets c)
    rw [hundefer, bracketArrays_stringType hcloses, ← bracketArrays_eq_self_iff hcloses.closesArrays,
      ← infix_bracketArrays]
    rcases r.resolveValue_stringType hquotes available with ⟨hin, hany⟩ | ⟨hout, hshown⟩
    · rw [hany]
      refine ⟨fun heq => ?_, fun h => absurd hin h.2.2⟩
      exact absurd (List.cons.inj heq).1 (by decide)
    · rw [hshown]
      exact ⟨fun heq => ⟨hbalanced, stringType_inj heq, hout⟩, fun h => by rw [h.2.1]⟩
  · refine iff_of_false (fun heq => ?_) fun h => hbalanced h.1
    obtain ⟨rest, hrest⟩ := exists_bracketArrays_cons (c := 'P') (by decide)
      ("romise<".toList ++ (stringType s ++ ['>']))
    have hwritten : bracketArrays (deferredOf (stringType s)) = 'P' :: rest := hrest
    rw [undefer_deferredOf_stringType hbalanced, hwritten] at heq
    rcases r.head?_expression_resolveValue (c := 'P') (by decide) rest available with hany | hhead
    · rw [hany] at heq
      exact absurd (List.cons.inj heq).1 (by decide)
    · rw [heq] at hhead
      exact absurd (Option.some.inj hhead) (by decide)

/-- What the scanners make of a string-literal type depends on what it holds. Where a deferred literal is
resolved, its angle brackets have to match, and it must not mention arrays or modules; as the element type
of an array it must not show the mark of a union or an intersection outside of its brackets either; it is
split where a separator stands so; and beside the missing value its brackets have to match and its bars to
be spaced as those between members are. -/
theorem scan_stringType_iff (r : Resolver) (available : List Text) (s : Text)
    (hs : ∀ c ∈ s, isQuote c = false) :
    ((r.resolve (deferredOf (stringType s)) available).expression = stringType s ↔
      AngleBalanced s ∧ ¬OpensArray s ∧ ¬importOpen <:+: s) ∧
    (bracketArrays (arrayOpen ++ (stringType s ++ ['>'])) = stringType s ++ "[]".toList ↔
      AngleBalanced s ∧ ¬OpensArray s ∧ ¬StandsOpen '|' s ∧ ¬StandsOpen '&' s) ∧
    (∀ sep ∈ "|&,".toList, splitTopLevel sep (stringType s) = [stringType s] ↔ ¬StandsOpen sep s) ∧
    (stripMissing (stringType s ++ orMissing) = (stringType s, true) ↔
      bracketDepth none s = 0 ∧
        Text.join " | ".toList (splitTopLevel '|' (stringType s)) = stringType s ∧
        missingValue ∉ splitTopLevel '|' (stringType s)) := by
  refine ⟨r.resolve_deferredOf_stringType hs available, bracketArrays_array_stringType s, fun sep hsep => ?_,
    stripMissing_stringType s⟩
  have hquote : sep ≠ '\x27' := by
    rintro rfl
    exact absurd hsep (by decide)
  rw [splitTopLevel_eq_singleton_iff hsep (trimmed_stringType s), standsOpen_stringType hquote]

theorem scan_stringType_operators :
    let r : Resolver := { isShared := (· == "@shared".toList) }
    ((∀ c ∈ ">=".toList, isQuote c = false) ∧
      (r.resolve "Promise<\x27>=\x27>".toList []).expression ≠ "\x27>=\x27".toList) ∧
    ((∀ c ∈ "a|b".toList, isQuote c = false) ∧
      bracketArrays "Array<\x27a|b\x27>".toList ≠ "\x27a|b\x27[]".toList ∧
      splitTopLevel '|' "\x27a|b\x27".toList ≠ ["\x27a|b\x27".toList] ∧
      stripMissing "\x27a|b\x27 | undefined".toList ≠ ("\x27a|b\x27".toList, true)) ∧
    ((∀ c ∈ "a b".toList, isQuote c = false) ∧
      (r.resolve "Promise<\x27a b\x27>".toList []).expression = "\x27a b\x27".toList ∧
      bracketArrays "Array<\x27a b\x27>".toList = "\x27a b\x27[]".toList ∧
      (∀ sep ∈ "|&,".toList, splitTopLevel sep "\x27a b\x27".toList = ["\x27a b\x27".toList]) ∧
      stripMissing "\x27a b\x27 | undefined".toList = ("\x27a b\x27".toList, true)) := by
  intro r
  have hscan := fun s hs => r.scan_stringType_iff [] s hs
  have hcompare : ∀ c ∈ ">=".toList, isQuote c = false :=
    List.all_iff_forall_prop.1 (by decide)
  have hunion : ∀ c ∈ "a|b".toList, isQuote c = false :=
    List.all_iff_forall_prop.1 (by decide)
  have hplain : ∀ c ∈ "a b".toList, isQuote c = false :=
    List.all_iff_forall_prop.1 (by decide)
  refine ⟨⟨hcompare, fun heq => ?_⟩, ⟨hunion, fun heq => ?_, fun heq => ?_, fun heq => ?_⟩, hplain, ?_⟩
  · exact absurd ((hscan _ hcompare).1.1 heq).1 (by decide)
  · exact ((hscan _ hunion).2.1.1 heq).2.2.1 ⟨['a'], ['b'], rfl, by decide⟩
  · exact ((hscan _ hunion).2.2.1 '|' (by decide)).1 heq ⟨['a'], ['b'], rfl, by decide⟩
  · exact absurd ((hscan _ hunion).2.2.2.1 heq).2.1 (by decide)
  · obtain ⟨hresolve, harray, hsplit, hmissing⟩ := hscan _ hplain
    have hbalanced : AngleBalanced "a b".toList := by decide
    have hopens : ¬OpensArray "a b".toList := by
      rintro ⟨lead, rest, heq, -⟩
      have hangle : '<' ∈ "a b".toList :=
        heq ▸ List.mem_append_right lead (List.mem_append_left rest (by decide))
      exact absurd hangle (by decide)
    have hstands : ∀ sep ∈ "|&,".toList, ¬StandsOpen sep "a b".toList := by
      rintro sep hsep ⟨front, rest, heq, -⟩
      have hmem : sep ∈ "a b".toList := heq ▸ List.mem_append_right front List.mem_cons_self
      have hnone : ∀ c ∈ "|&,".toList, c ∉ "a b".toList :=
        List.all_iff_forall_prop.1 (by decide)
      exact hnone sep hsep hmem
    refine ⟨hresolve.2 ⟨hbalanced, hopens, by decide⟩, harray.2 ⟨hbalanced, hopens, ?_, ?_⟩,
      fun sep hsep => (hsplit sep hsep).2 (hstands sep hsep), hmissing.2 (by decide)⟩
    · exact hstands '|' (by decide)
    · exact hstands '&' (by decide)

end Resolver

end NestClient.TypeText
