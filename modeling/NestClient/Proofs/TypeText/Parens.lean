import NestClient.Proofs.TypeText.Rewritten

/-! When the element type of an array gets parentheses.

* `needsParens_eq`: when a mark of an operator stands in its text outside of all brackets.
* `showsOperator_of_rewritten`: that is so for a union and an intersection, and for a function type
  whose result is one. -/

namespace NestClient.TypeText

/-- The type is a union or an intersection, or a function type that ends in one. -/
def Phrase.loose {k : Part} : Phrase k → Bool
  | operation _ _ _ => true
  | function _ result => result.loose
  | last _ member => member.loose
  | cons _ member _ rest => member.loose || rest.loose
  | _ => false

theorem Phrase.loose_of_level {e : Phrase .type} (h : e.level = 3) : e.loose = false := by
  cases e with
  | operation op first second => cases op <;> cases h
  | function row result => cases h
  | _ => rfl

variable {before : Option Char} {c : Char} {d : Int} {s t u : Text} {a b : Bool}

/-! ## Depth -/

/-- What a character adds to the depth of brackets, given the character before it. -/
def bracketWeight (before : Option Char) (c : Char) : Int :=
  if opens c then 1 else if closes before c then -1 else 0

/-- The brackets of any kind that the text opens, less those that it closes. -/
def bracketDepth (before : Option Char) : Text → Int
  | [] => 0
  | c :: rest => bracketWeight before c + bracketDepth (some c) rest

def isOperator (c : Char) : Bool := c = '|' || c = '&'

/-- The mark of an operator stands in the text outside of all brackets. -/
def showsOperator (before : Option Char) (d : Int) : Text → Bool
  | [] => false
  | c :: rest => (isOperator c && d = 0) || showsOperator (some c) (d + bracketWeight before c) rest

theorem bracketWeight_operator (op : Operator) (before : Option Char) :
    bracketWeight before op.mark = 0 := by
  cases op <;> rfl

theorem isOperator_iff : isOperator c = true ↔ ∃ op : Operator, c = op.mark := by
  constructor
  · intro h
    rw [isOperator, Bool.or_eq_true, decide_eq_true_eq, decide_eq_true_eq] at h
    rcases h with rfl | rfl
    · exact ⟨.union, rfl⟩
    · exact ⟨.intersection, rfl⟩
  · rintro ⟨op, rfl⟩
    cases op <;> rfl

theorem isOperator_of_weight (h : bracketWeight before c ≠ 0) : isOperator c = false := by
  rw [← Bool.not_eq_true, isOperator_iff]
  rintro ⟨op, rfl⟩
  exact h (bracketWeight_operator op before)

theorem length_lengthenHead {pieces : List Text} (h : pieces ≠ []) (c : Char) :
    (Text.lengthenHead c pieces).length = pieces.length := by
  cases pieces with
  | nil => exact absurd rfl h
  | cons piece more => rfl

theorem length_cut_cons (isSep : Char → Bool) (rest : Text) : (cut isSep before d (c :: rest)).length
    = (cut isSep (some c) (d + bracketWeight before c) rest).length
      + if bracketWeight before c = 0 ∧ isSep c = true ∧ d = 0 then 1 else 0 := by
  have hlength : ∀ depth, (Text.lengthenHead c (cut isSep (some c) depth rest)).length
      = (cut isSep (some c) depth rest).length :=
    fun depth => length_lengthenHead (cut_ne_nil isSep (some c) depth rest) c
  rw [cut, bracketWeight]
  split
  · rw [hlength, if_neg (by simp)]
    rfl
  · split
    · rw [hlength, if_neg (by simp)]
      rfl
    · rw [Int.add_zero]
      split
      next hsep =>
        rw [Bool.and_eq_true, decide_eq_true_eq] at hsep
        rw [if_pos ⟨rfl, hsep⟩, List.length_cons]
      next hsep =>
        rw [Bool.and_eq_true, decide_eq_true_eq] at hsep
        rw [hlength, if_neg fun h => hsep h.2]
        rfl

/-- The text is cut at one of the marks if and only if an operator shows. -/
theorem one_lt_length_cut : (decide (1 < (cut (· = '|') before d t).length)
    || decide (1 < (cut (· = '&') before d t).length)) = showsOperator before d t := by
  induction t generalizing before d with
  | nil => rfl
  | cons c rest ih =>
    have hpos : ∀ (isSep : Char → Bool) (depth : Int), 0 < (cut isSep (some c) depth rest).length :=
      fun isSep depth => List.length_pos_of_ne_nil (cut_ne_nil isSep (some c) depth rest)
    rw [length_cut_cons, length_cut_cons, showsOperator, ← ih]
    by_cases hcut : isOperator c = true ∧ d = 0
    · obtain ⟨hop, rfl⟩ := hcut
      obtain ⟨op, rfl⟩ := isOperator_iff.1 hop
      rw [bracketWeight_operator, hop]
      cases op with
      | union =>
        simp only [Operator.mark]
        simp
        exact .inl (hpos _ _)
      | intersection =>
        simp only [Operator.mark]
        simp
        exact .inr (hpos _ _)
    · have hneither : ∀ sep : Char, isOperator sep = true → ¬(bracketWeight before c = 0 ∧
          decide (c = sep) = true ∧ d = 0) := by
        rintro sep hsep ⟨-, hc, hd⟩
        rw [decide_eq_true_eq] at hc
        exact hcut ⟨hc ▸ hsep, hd⟩
      have hquiet : (isOperator c && decide (d = 0)) = false := by
        rw [← Bool.not_eq_true, Bool.and_eq_true, decide_eq_true_eq]
        exact hcut
      rw [if_neg (hneither '|' rfl), if_neg (hneither '&' rfl), hquiet]
      rfl

theorem needsParens_eq (t : Text) : needsParens t = showsOperator none 0 t := by
  rw [needsParens, splitTopLevel, splitTopLevel, splitTopLevelBy, splitTopLevelBy, List.length_map,
    List.length_map]
  exact one_lt_length_cut

theorem bracketWeight_of_ne (h : before ≠ some '=') (c : Char) :
    bracketWeight before c = bracketWeight none c := by
  have hb : (before != some '=') = true := by simpa using h
  rw [bracketWeight, bracketWeight, closes, closes, closesAngle, closesAngle, hb]
  rfl

theorem bracketDepth_of_ne (h : before ≠ some '=') (t : Text) :
    bracketDepth before t = bracketDepth none t := by
  cases t with
  | nil => rfl
  | cons c rest => rw [bracketDepth, bracketDepth, bracketWeight_of_ne h]

theorem showsOperator_of_ne (h : before ≠ some '=') (d : Int) (t : Text) :
    showsOperator before d t = showsOperator none d t := by
  cases t with
  | nil => rfl
  | cons c rest => rw [showsOperator, showsOperator, bracketWeight_of_ne h]

theorem bracketDepth_append (before : Option Char) (s t : Text) :
    bracketDepth before (s ++ t) = bracketDepth before s + bracketDepth (s.getLast?.or before) t := by
  induction s generalizing before with
  | nil => simp [bracketDepth]
  | cons c rest ih =>
    rw [List.cons_append, bracketDepth, bracketDepth, ih, getLast?_cons_or, Int.add_assoc]

theorem showsOperator_append (before : Option Char) (d : Int) (s t : Text) :
    showsOperator before d (s ++ t) = (showsOperator before d s
      || showsOperator (s.getLast?.or before) (d + bracketDepth before s) t) := by
  induction s generalizing before d with
  | nil => simp [showsOperator, bracketDepth]
  | cons c rest ih =>
    rw [List.cons_append, showsOperator, showsOperator, ih, getLast?_cons_or, bracketDepth, Int.add_assoc,
      Bool.or_assoc]

/-! ## Texts whose brackets match -/

/-- The characters of brackets, operators and arrows. -/
def structureMarks : Text := "<>()[]\x7b\x7d|&=".toList

theorem bracketWeight_of_not_mem (hc : c ∉ structureMarks) (before : Option Char) :
    bracketWeight before c = 0 := by
  have hopens : ¬opens c = true := by
    simp only [opens, Bool.or_eq_true, decide_eq_true_eq]
    rintro (((rfl | rfl) | rfl) | rfl) <;> exact hc (by decide)
  have hcloses : ¬closes before c = true := by
    simp only [closes, closesAngle, Bool.or_eq_true, Bool.and_eq_true, decide_eq_true_eq]
    rintro (((rfl | rfl) | rfl) | ⟨rfl, -⟩) <;> exact hc (by decide)
  rw [bracketWeight, if_neg hopens, if_neg hcloses]

theorem isOperator_of_not_mem (hc : c ∉ structureMarks) : isOperator c = false := by
  rw [← Bool.not_eq_true, isOperator_iff]
  rintro ⟨op, rfl⟩
  cases op <;> exact hc (by decide)

/-- What closes a bracket, unless it completes an arrow. -/
structure Closing (c : Char) : Prop where
  weight : ∀ before, before ≠ some '=' → bracketWeight before c = -1
  visible : isBlank c = false

theorem closing_angle : Closing '>' := by
  refine ⟨fun before hbefore => ?_, by decide⟩
  rw [bracketWeight_of_ne hbefore]
  decide

theorem closing_paren : Closing ')' := ⟨fun _ _ => rfl, by decide⟩

theorem closing_square : Closing ']' := ⟨fun _ _ => rfl, by decide⟩

theorem Shape.closing_closing (shape : Shape) : Closing shape.closing := by
  cases shape with
  | tuple => exact closing_square
  | object => exact ⟨fun _ _ => rfl, by decide⟩

theorem Shape.opens_opening (shape : Shape) : opens shape.opening = true := by
  cases shape <;> rfl

/-- Whether an operator shows in a text whose brackets match: not within any other brackets. No arrow is
left half done at the end. -/
structure ShowsOperator (b : Bool) (t : Text) : Prop where
  operator : ∀ d, 0 ≤ d → showsOperator none d t = (b && decide (d = 0))
  depth : bracketDepth none t = 0
  arrows : ∀ lead tail, t = lead ++ '=' :: tail → ¬Blanks tail

namespace ShowsOperator

theorem last (h : ShowsOperator b t) : t.getLast? ≠ some '=' := by
  intro hlast
  obtain ⟨lead, rfl⟩ := List.getLast?_eq_some_iff.1 hlast
  exact h.arrows lead [] rfl .nil

theorem needsParens (h : ShowsOperator b t) : needsParens t = b := by
  rw [needsParens_eq, h.operator 0 (Int.le_refl 0)]
  simp

theorem append (hs : ShowsOperator a s) (ht : ShowsOperator b t) : ShowsOperator (a || b) (s ++ t) := by
  have hne : s.getLast?.or none ≠ some '=' := by
    rw [Option.or_none]
    exact hs.last
  refine ⟨fun d hd => ?_, ?_, ?_⟩
  · rw [showsOperator_append, hs.operator d hd, showsOperator_of_ne hne, hs.depth, Int.add_zero,
      ht.operator d hd, Bool.and_or_distrib_right]
  · rw [bracketDepth_append, hs.depth, bracketDepth_of_ne hne, ht.depth]
    rfl
  · rintro lead tail heq htail
    rcases List.append_eq_append_iff.1 heq with ⟨more, rfl, ht'⟩ | ⟨more, rfl, hmore⟩
    · exact ht.arrows more tail ht' htail
    · cases more with
      | nil => exact ht.arrows [] tail hmore.symm htail
      | cons c more =>
        obtain ⟨rfl, rfl⟩ := List.cons.inj hmore
        exact hs.arrows lead more rfl fun c hc => htail c (List.mem_append_left t hc)

theorem of_plain (h : ∀ c ∈ t, c ∉ structureMarks) : ShowsOperator false t := by
  have hscan : ∀ before, bracketDepth before t = 0 ∧ ∀ d, showsOperator before d t = false := by
    induction t with
    | nil => exact fun _ => ⟨rfl, fun _ => rfl⟩
    | cons c rest ih =>
      intro before
      have hc := h c List.mem_cons_self
      obtain ⟨hdepth, hshows⟩ := ih (fun d hd => h d (List.mem_cons_of_mem c hd)) (some c)
      refine ⟨?_, fun d => ?_⟩
      · rw [bracketDepth, bracketWeight_of_not_mem hc, hdepth]
        rfl
      · rw [showsOperator, isOperator_of_not_mem hc, hshows]
        rfl
  refine ⟨fun d _ => (hscan none).2 d, (hscan none).1, ?_⟩
  rintro lead tail rfl -
  exact h '=' (List.mem_append_right lead List.mem_cons_self) (by decide)

theorem of_char (hc : c ∉ structureMarks) : ShowsOperator false [c] :=
  of_plain (by simpa using hc)

theorem mark (op : Operator) : ShowsOperator true [op.mark] := by
  refine ⟨fun d _ => ?_, ?_, ?_⟩
  · rw [showsOperator, showsOperator, isOperator_iff.2 ⟨op, rfl⟩, Bool.or_false]
  · rw [bracketDepth, bracketWeight_operator]
    rfl
  · intro lead tail heq
    have hmem : '=' ∈ [op.mark] := heq ▸ List.mem_append_right lead List.mem_cons_self
    cases op <;> exact absurd hmem (by decide)

theorem enclose {opening closing : Char} (hopen : opens opening = true) (hclose : Closing closing)
    (hs : ShowsOperator b s) : ShowsOperator false (opening :: (s ++ [closing])) := by
  have hweight : bracketWeight none opening = 1 := if_pos hopen
  have hclosed : bracketWeight none closing = -1 := hclose.weight none (by simp)
  have hopening : isOperator opening = false := isOperator_of_weight (by rw [hweight]; decide)
  have hclosing : isOperator closing = false := isOperator_of_weight (by rw [hclosed]; decide)
  have hne : some opening ≠ some '=' := by
    rintro heq
    rw [Option.some.inj heq] at hopen
    exact absurd hopen (by decide)
  have hlast : s.getLast?.or none ≠ some '=' := by
    rw [Option.or_none]
    exact hs.last
  refine ⟨fun d hd => ?_, ?_, ?_⟩
  · have hinside : decide (d + 1 = 0) = false := decide_eq_false (by omega)
    rw [showsOperator, hopening, hweight, showsOperator_of_ne hne, showsOperator_append,
      hs.operator (d + 1) (by omega), hinside, showsOperator, showsOperator, hclosing]
    simp
  · rw [bracketDepth, hweight, bracketDepth_of_ne hne, bracketDepth_append, hs.depth, bracketDepth,
      hclose.weight _ hlast]
    rfl
  · intro lead tail heq htail
    have hend := congrArg List.getLast? heq
    rw [← List.cons_append, List.getLast?_concat, List.getLast?_append, List.getLast?_cons] at hend
    cases hback : tail.getLast? with
    | none =>
      rw [hback] at hend
      obtain rfl : closing = '=' := Option.some.inj hend
      exact absurd hclosed (by decide)
    | some c =>
      rw [hback] at hend
      obtain rfl : closing = c := Option.some.inj hend
      have hblank := htail closing (List.mem_of_getLast? hback)
      rw [hclose.visible] at hblank
      cases hblank

theorem enclose_append {opening closing : Char} (hopen : opens opening = true) (hclose : Closing closing)
    (hs : ShowsOperator b s) (ht : ShowsOperator a t) :
    ShowsOperator a (opening :: (s ++ closing :: t)) := by
  have happend := (hs.enclose hopen hclose).append ht
  rwa [Bool.false_or, List.cons_append, List.append_assoc, List.singleton_append] at happend

theorem arrow : ShowsOperator false ['=', '>'] := by
  refine ⟨fun d _ => ?_, by decide, ?_⟩
  · rw [showsOperator, showsOperator, showsOperator]
    rfl
  · intro lead tail heq htail
    cases lead with
    | nil =>
      obtain rfl := (List.cons.inj heq).2
      exact absurd (htail '>' List.mem_cons_self) (by decide)
    | cons c lead =>
      have hmem : '=' ∈ ['>'] := (List.cons.inj heq).2 ▸ List.mem_append_right lead List.mem_cons_self
      exact absurd hmem (by decide)

end ShowsOperator

theorem Blanks.shows (h : Blanks t) : ShowsOperator false t := by
  have hmarks : (structureMarks.all fun c => isBlank c = false) = true := by decide
  refine ShowsOperator.of_plain fun c hc hmark => h.not_mem ?_ hc
  exact of_decide_eq_true (List.all_eq_true.1 hmarks c hmark)

theorem isNamePart_of_structureMarks (hc : c ∈ structureMarks) : isNamePart c = false := by
  have hmarks : (structureMarks.all fun c => isNamePart c = false) = true := by decide
  exact of_decide_eq_true (List.all_eq_true.1 hmarks c hc)

theorem IsTypeName.shows (h : IsTypeName t) : ShowsOperator false t :=
  ShowsOperator.of_plain fun _ hc hmark => h.not_mem (isNamePart_of_structureMarks hmark) hc

theorem ReadsLabel.shows {label : Option Text} (h : ReadsLabel label t) : ShowsOperator false t := by
  cases h with
  | none => exact ShowsOperator.of_plain (by simp)
  | some hlabel hlead htail =>
    have hcolon : ShowsOperator false [':'] := ShowsOperator.of_char (by decide)
    exact hlead.shows.append (hlabel.shows.append (htail.shows.append hcolon))

namespace ShowsOperator

theorem trim (h : ShowsOperator b t) : ShowsOperator b (Text.trim t) := by
  obtain ⟨lead, tail, ht, hlead, htail⟩ := Text.exists_trim t
  have hfront : ShowsOperator false lead := Blanks.shows hlead
  have hback : ShowsOperator false tail := Blanks.shows htail
  have harrows : ∀ front back, Text.trim t = front ++ '=' :: back → ¬Blanks back := by
    intro front back heq hblank
    refine h.arrows (lead ++ front) (back ++ tail) ?_ ?_
    · rw [heq] at ht
      rw [ht]
      simp only [List.append_assoc, List.cons_append]
    · intro c hc
      exact (List.mem_append.1 hc).elim (hblank c) (htail c)
  have hbefore : lead.getLast?.or none ≠ some '=' := by
    rw [Option.or_none]
    exact hfront.last
  have hbehind : (Text.trim t).getLast?.or (lead.getLast?.or none) ≠ some '=' := by
    cases hlast : (Text.trim t).getLast? with
    | none => exact hbefore
    | some c =>
      intro heq
      obtain ⟨front, hfront⟩ := List.getLast?_eq_some_iff.1 (hlast.trans heq)
      exact harrows front [] hfront .nil
  have hdepth : bracketDepth none (Text.trim t) = 0 := by
    have hall := h.depth
    rw [ht, bracketDepth_append, bracketDepth_append, hfront.depth, bracketDepth_of_ne hbefore,
      bracketDepth_of_ne hbehind, hback.depth] at hall
    omega
  refine ⟨fun d hd => ?_, hdepth, harrows⟩
  have hall := h.operator d hd
  rw [ht, showsOperator_append, showsOperator_append, hfront.operator d hd, hfront.depth,
    showsOperator_of_ne hbefore, showsOperator_of_ne hbehind, bracketDepth_of_ne hbefore, hdepth,
    Int.add_zero, Int.add_zero, hback.operator d hd] at hall
  simpa using hall

/-- An element type shows nothing in its array type, as it is put in parentheses if it would. -/
theorem bracketed (h : ShowsOperator b t) : ShowsOperator false (bracketed t) := by
  have hsuffix : ShowsOperator false ['[', ']'] := (of_plain (t := []) (by simp)).enclose rfl closing_square
  rw [TypeText.bracketed, h.needsParens]
  cases b with
  | false =>
    rw [if_neg (by simp)]
    exact h.append hsuffix
  | true =>
    have hwhole : '(' :: t ++ ")[]".toList = ('(' :: (t ++ [')'])) ++ ['[', ']'] := by
      simp
    rw [if_pos rfl, hwhole]
    exact (h.enclose rfl closing_paren).append hsuffix

end ShowsOperator

/-- In what the rewriting leaves of a type an operator shows if and only if the type is, or ends in, a
union or an intersection. -/
theorem showsOperator_of_rewritten {k : Part} {e : Phrase k} (h : Rewritten e t) :
    ShowsOperator e.loose t := by
  induction h with
  | name hname hlead htail =>
    exact hlead.shows.append (hname.shows.append htail.shows)
  | @generic head row lead s tail hhead hne hword hlead hrow htail ih =>
    have hangle : ShowsOperator false ('<' :: (s ++ '>' :: tail)) :=
      ih.enclose_append rfl closing_angle htail.shows
    exact hlead.shows.append (hhead.shows.append hangle)
  | @mistaken front row lead s tail hhead hword hlead hrow htail ih =>
    have hfront : ShowsOperator false front := by
      refine ShowsOperator.of_plain fun c hc hmark => ?_
      exact hhead.not_mem (isNamePart_of_structureMarks hmark) (List.mem_append_left arrayWord hc)
    exact hlead.shows.append (hfront.append (ih.trim.bracketed.append htail.shows))
  | arrayOf hlead helement htail ih =>
    exact hlead.shows.append (ih.trim.bracketed.append htail.shows)
  | @array element s mid tail hlevel helement hmid htail ih =>
    have hsuffix : ShowsOperator false ('[' :: (mid ++ ']' :: tail)) :=
      hmid.shows.enclose_append rfl closing_square htail.shows
    have hwhole := ih.append hsuffix
    rwa [Phrase.loose_of_level hlevel] at hwhole
  | @operation op first second s u hfirst hsecond hs hu ihs ihu =>
    have hwhole := ihs.append ((ShowsOperator.mark op).append ihu)
    rwa [Bool.true_or, Bool.or_true] at hwhole
  | @function row result lead s mid u hlead hrow hmid hresult ihrow ihresult =>
    have hrest : ShowsOperator result.loose ('(' :: (s ++ ')' :: (mid ++ '=' :: '>' :: u))) :=
      ihrow.enclose_append rfl closing_paren (hmid.shows.append (ShowsOperator.arrow.append ihresult))
    exact hlead.shows.append hrest
  | @members shape row lead s tail hlead hrow htail ih =>
    exact hlead.shows.append
      (ih.enclose_append shape.opens_opening shape.closing_closing htail.shows)
  | @paren inner lead s tail hlead hinner htail ih =>
    exact hlead.shows.append (ih.enclose_append rfl closing_paren htail.shows)
  | empty hs => exact hs.shows
  | last hlabel hs ih => exact hlabel.shows.append ih
  | @cons label member separator rest p s u hlabel hs hseparator hu ihs ihu =>
    have hmark : ShowsOperator false [separator] := by
      rcases hseparator with rfl | rfl <;> exact ShowsOperator.of_char (by decide)
    exact hlabel.shows.append (ihs.append (hmark.append ihu))

end NestClient.TypeText
