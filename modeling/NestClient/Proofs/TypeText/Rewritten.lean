import NestClient.Proofs.TypeText.Rewriting

/-! What the rewriting of array types makes of a text that reads as a type.

* `wrappable_of_reads`: such a text closes all angle brackets that it opens.
* `Rewritten`: what is left of a phrase, part by part.
* `rewritten_bracketArrays`: the rewriting leaves that. -/

namespace NestClient.TypeText

variable {k : Part} {e : Phrase k} {s t u : Text} {c : Char}

/-! ## Texts between angle brackets -/

namespace Wrappable

theorem append (hs : Wrappable s) (ht : Wrappable t) : Wrappable (s ++ t) := by
  have hlast : s.getLast?.or none ≠ some '=' := by
    rw [Option.or_none]
    exact hs.last
  refine ⟨⟨fun lead hlead => ?_, ?_⟩, ?_⟩
  · rcases List.prefix_or_prefix_of_prefix hlead (List.prefix_append s t) with hin | ⟨more, rfl⟩
    · exact hs.balanced.nonneg lead hin
    · rw [angleDepth_append, hs.balanced.total, angleDepth_of_ne hlast, Int.zero_add]
      exact ht.balanced.nonneg more ((List.prefix_append_right_inj s).1 hlead)
  · rw [angleDepth_append, hs.balanced.total, angleDepth_of_ne hlast, ht.balanced.total]
    rfl
  · rw [List.getLast?_append]
    cases hend : t.getLast? with
    | none => exact hs.last
    | some c => exact fun heq => ht.last (hend.trans heq)

theorem of_plain (h : ∀ c ∈ t, c ≠ '<' ∧ c ≠ '>' ∧ c ≠ '=') : Wrappable t := by
  have hzero : ∀ lead, lead <+: t → angleDepth none lead = 0 := by
    intro lead hlead
    apply angleDepth_eq_zero
    intro c hc
    exact (h c (hlead.subset hc)).imp_right And.left
  refine ⟨⟨fun lead hlead => Int.le_of_eq (hzero lead hlead).symm, hzero t List.prefix_rfl⟩,
    fun hlast => ?_⟩
  exact (h '=' (List.mem_of_getLast? hlast)).2.2 rfl

theorem angle (hs : Wrappable s) : Wrappable ('<' :: (s ++ ['>'])) := by
  have hcloses := closesLast_concat_iff.2 hs
  have hdepth : ∀ more, angleDepth none ('<' :: more) = 1 + angleDepth none more := by
    intro more
    rw [angleDepth, angleDepth_of_ne (by decide)]
    rfl
  refine ⟨⟨fun lead hlead => ?_, by rw [hdepth, hcloses.total]⟩, ?_⟩
  · rcases List.prefix_cons_iff.1 hlead with rfl | ⟨more, rfl, hmore⟩
    · exact Int.le_refl 0
    · rw [hdepth]
      by_cases hwhole : more = s ++ ['>']
      · have htotal := hcloses.total
        rw [hwhole]
        omega
      · have hopen := hcloses.isOpen more hmore hwhole
        omega
  · rw [← List.cons_append, List.getLast?_concat]
    decide

theorem angle_append (hs : Wrappable s) (ht : Wrappable t) : Wrappable ('<' :: (s ++ '>' :: t)) := by
  have happend := hs.angle.append ht
  rwa [List.cons_append, List.append_assoc, List.singleton_append] at happend

theorem append_cons (hs : Wrappable s) (hc : c ≠ '<' ∧ c ≠ '>' ∧ c ≠ '=') (ht : Wrappable t) :
    Wrappable (s ++ c :: t) := by
  have hmark : Wrappable [c] := of_plain (by simpa using hc)
  exact hs.append (hmark.append ht)

end Wrappable

theorem Blanks.nil : Blanks [] := by simp [Blanks]

theorem Blanks.not_mem (h : Blanks t) (hc : isBlank c = false) : c ∉ t := by
  intro hmem
  rw [h c hmem] at hc
  cases hc

theorem IsTypeName.not_mem (h : IsTypeName t) (hc : isNamePart c = false) : c ∉ t := by
  intro hmem
  rw [h.chars c hmem] at hc
  cases hc

theorem Blanks.wrappable (h : Blanks t) : Wrappable t := by
  apply Wrappable.of_plain
  intro c hc
  refine ⟨?_, ?_, ?_⟩ <;> rintro rfl <;> exact h.not_mem (by decide) hc

theorem IsTypeName.wrappable (h : IsTypeName t) : Wrappable t := by
  apply Wrappable.of_plain
  intro c hc
  refine ⟨?_, ?_, ?_⟩ <;> rintro rfl <;> exact h.not_mem (by decide) hc

theorem ReadsLabel.wrappable {label : Option Text} (h : ReadsLabel label t) : Wrappable t := by
  cases h with
  | none => exact Wrappable.of_plain (by simp)
  | some hlabel hlead htail =>
    exact hlead.wrappable.append (hlabel.wrappable.append (htail.wrappable.append_cons (by decide)
      (Wrappable.of_plain (by simp))))

/-- The type that a text reads as closes every angle bracket. -/
theorem wrappable_of_reads (h : Reads e t) : Wrappable t := by
  induction h with
  | name hname hlead htail => exact hlead.wrappable.append (hname.wrappable.append htail.wrappable)
  | generic hhead hne hlead hrow htail ih =>
    exact hlead.wrappable.append (hhead.wrappable.append (ih.angle_append htail.wrappable))
  | arrayOf hlead helement htail ih =>
    have hword := isTypeName_arrayWord.wrappable
    exact hlead.wrappable.append (hword.append (ih.angle_append htail.wrappable))
  | array hlevel helement hmid htail ih =>
    exact ih.append_cons (by decide) (hmid.wrappable.append_cons (by decide) htail.wrappable)
  | @operation op _ _ _ _ hfirst hsecond hs hu ihs ihu =>
    exact ihs.append_cons (by cases op <;> decide) ihu
  | @function row result lead s mid u hlead hrow hmid hresult ihrow ihresult =>
    have harrow : Wrappable ['=', '>'] := ⟨by decide, by decide⟩
    exact hlead.wrappable.append_cons (by decide) (ihrow.append_cons (by decide)
      (hmid.wrappable.append (harrow.append ihresult)))
  | @members shape row lead s tail hlead hrow htail ih =>
    exact hlead.wrappable.append_cons (by cases shape <;> decide)
      (ih.append_cons (by cases shape <;> decide) htail.wrappable)
  | paren hlead hinner htail ih =>
    exact hlead.wrappable.append_cons (by decide) (ih.append_cons (by decide) htail.wrappable)
  | empty hs => exact hs.wrappable
  | last hlabel hs ih => exact hlabel.wrappable.append ih
  | cons hlabel hs hseparator hu ihs ihu =>
    refine hlabel.wrappable.append (ihs.append_cons ?_ ihu)
    rcases hseparator with rfl | rfl <;> decide

/-! ## What is left of a phrase -/

/-- What the rewriting leaves of a text that reads as the phrase: every array type gets its suffix, but
so does what is applied to arguments by a name that ends in the word for arrays. -/
inductive Rewritten : {k : Part} → Phrase k → Text → Prop where
  | name {n lead tail : Text} (hname : IsTypeName n) (hlead : Blanks lead) (htail : Blanks tail) :
      Rewritten (.name n) (lead ++ (n ++ tail))
  | generic {head : Text} {row : Phrase .row} {lead s tail : Text} (hhead : IsTypeName head)
      (hne : head ≠ arrayWord) (hword : isArrayName head = false) (hlead : Blanks lead)
      (hrow : Rewritten row s) (htail : Blanks tail) :
      Rewritten (.generic head row) (lead ++ (head ++ '<' :: (s ++ '>' :: tail)))
  | mistaken {front : Text} {row : Phrase .row} {lead s tail : Text}
      (hhead : IsTypeName (front ++ arrayWord)) (hword : wordMayStart front.getLast? = true)
      (hlead : Blanks lead) (hrow : Rewritten row s) (htail : Blanks tail) :
      Rewritten (.generic (front ++ arrayWord) row) (lead ++ (front ++ (bracketed (Text.trim s) ++ tail)))
  | arrayOf {element : Phrase .type} {lead s tail : Text} (hlead : Blanks lead)
      (helement : Rewritten element s) (htail : Blanks tail) :
      Rewritten (.arrayOf element) (lead ++ (bracketed (Text.trim s) ++ tail))
  | array {element : Phrase .type} {s mid tail : Text} (hlevel : element.level = 3)
      (helement : Rewritten element s) (hmid : Blanks mid) (htail : Blanks tail) :
      Rewritten (.array element) (s ++ '[' :: (mid ++ ']' :: tail))
  | operation {op : Operator} {first second : Phrase .type} {s u : Text} (hfirst : op.level < first.level)
      (hsecond : op.level ≤ second.level) (hs : Rewritten first s) (hu : Rewritten second u) :
      Rewritten (.operation op first second) (s ++ op.mark :: u)
  | function {row : Phrase .row} {result : Phrase .type} {lead s mid u : Text} (hlead : Blanks lead)
      (hrow : Rewritten row s) (hmid : Blanks mid) (hresult : Rewritten result u) :
      Rewritten (.function row result) (lead ++ '(' :: (s ++ ')' :: (mid ++ '=' :: '>' :: u)))
  | members {shape : Shape} {row : Phrase .row} {lead s tail : Text} (hlead : Blanks lead)
      (hrow : Rewritten row s) (htail : Blanks tail) :
      Rewritten (.members shape row) (lead ++ shape.opening :: (s ++ shape.closing :: tail))
  | paren {inner : Phrase .type} {lead s tail : Text} (hlead : Blanks lead) (hinner : Rewritten inner s)
      (htail : Blanks tail) : Rewritten (.paren inner) (lead ++ '(' :: (s ++ ')' :: tail))
  | empty {s : Text} (hs : Blanks s) : Rewritten .empty s
  | last {label : Option Text} {member : Phrase .type} {p s : Text} (hlabel : ReadsLabel label p)
      (hs : Rewritten member s) : Rewritten (.last label member) (p ++ s)
  | cons {label : Option Text} {member : Phrase .type} {separator : Char} {rest : Phrase .row}
      {p s u : Text} (hlabel : ReadsLabel label p) (hs : Rewritten member s)
      (hseparator : separator = ',' ∨ separator = ';') (hu : Rewritten rest u) :
      Rewritten (.cons label member separator rest) (p ++ (s ++ separator :: u))

/-! ## Marks of the grammar -/

/-- A mark that parts words and belongs to no array type's beginning. -/
structure IsMark (c : Char) : Prop where
  notOpen : c ∉ arrayOpen
  notWord : isWord c = false

instance (c : Char) : Decidable (IsMark c) :=
  decidable_of_iff (c ∉ arrayOpen ∧ isWord c = false)
    ⟨fun h => ⟨h.1, h.2⟩, fun h => ⟨h.notOpen, h.notWord⟩⟩

theorem IsMark.bracketArrays (hc : IsMark c) (hs : Wrappable s) (u : Text) :
    bracketArrays (s ++ c :: u) = bracketArrays s ++ c :: bracketArrays u :=
  bracketArrays_append_cons hc.notOpen hc.notWord hs.closesAngles u

theorem Blanks.bracketArrays (h : Blanks t) : bracketArrays t = t :=
  bracketArrays_of_not_mem (h.not_mem (by decide))

theorem IsMark.bracketArrays_blanks (hc : IsMark c) (hs : Blanks s) (u : Text) :
    TypeText.bracketArrays (s ++ c :: u) = s ++ c :: TypeText.bracketArrays u := by
  rw [hc.bracketArrays hs.wrappable, hs.bracketArrays]

theorem Operator.isMark (op : Operator) : IsMark op.mark := by
  cases op <;> decide

theorem Shape.isMark_opening (shape : Shape) : IsMark shape.opening := by
  cases shape <;> decide

theorem Shape.isMark_closing (shape : Shape) : IsMark shape.closing := by
  cases shape <;> decide

theorem ReadsLabel.bracketArrays {label : Option Text} (h : ReadsLabel label t) (u : Text) :
    TypeText.bracketArrays (t ++ u) = t ++ TypeText.bracketArrays u := by
  cases h with
  | none => rfl
  | @some label lead tail hlabel hlead htail =>
    have hwhole : lead ++ (label ++ (tail ++ [':'])) ++ u = (lead ++ (label ++ tail)) ++ ':' :: u := by
      simp only [List.append_assoc, List.singleton_append]
    have hnot : '<' ∉ lead ++ (label ++ tail) := by
      simp [hlead.not_mem, hlabel.not_mem, htail.not_mem, (by decide : isBlank '<' = false),
        (by decide : isNamePart '<' = false)]
    have hmark : IsMark ':' := by decide
    rw [hwhole, bracketArrays_append_cons hmark.notOpen hmark.notWord (closesAngles_of_not_mem hnot),
      bracketArrays_of_not_mem hnot]
    simp only [List.append_assoc, List.singleton_append]

/-- The rewriting goes through the text phrase by phrase. -/
theorem rewritten_bracketArrays (h : Reads e t) : Rewritten e (bracketArrays t) := by
  have hblank : isBlank '<' = false := by decide
  have hpart : isNamePart '<' = false := by decide
  induction h with
  | @name n lead tail hname hlead htail =>
    rw [bracketArrays_of_not_mem]
    · exact .name hname hlead htail
    · simp [hlead.not_mem hblank, hname.not_mem hpart, htail.not_mem hblank]
  | @generic head row lead s tail hhead hne hlead hrow htail ih =>
    have hs := wrappable_of_reads hrow
    have hclose : IsMark '>' := by decide
    cases hword : isArrayName head with
    | false =>
      have hnot : '<' ∉ lead ++ head := by simp [hlead.not_mem hblank, hhead.not_mem hpart]
      rw [← List.append_assoc, bracketArrays_apart hnot (by rwa [isArrayName_blanks_append hlead]),
        hclose.bracketArrays hs, htail.bracketArrays, List.append_assoc]
      exact .generic hhead hne hword hlead ih htail
    | true =>
      obtain ⟨front, rfl, hstart⟩ := isArrayName_eq_true_iff.1 hword
      have hfront : '<' ∉ lead ++ front := by
        have hnot := hhead.not_mem hpart
        rw [List.mem_append, not_or] at hnot
        simp [hlead.not_mem hblank, hnot.1]
      have hwhole : lead ++ (front ++ "Array".toList ++ '<' :: (s ++ '>' :: tail))
          = (lead ++ front) ++ (arrayOpen ++ (s ++ '>' :: tail)) := by
        simp only [arrayOpen_append, arrayWord, List.append_assoc]
      rw [hwhole, bracketArrays_word hfront (wordMayStart_blanks_append hlead hstart) hs,
        htail.bracketArrays, List.append_assoc]
      exact .mistaken hhead hstart hlead ih htail
  | @arrayOf element lead s tail hlead helement htail ih =>
    have hstart : wordMayStart lead.getLast? = true := by
      have hempty := wordMayStart_blanks_append (s := []) hlead rfl
      rwa [List.append_nil] at hempty
    rw [← arrayOpen_append, bracketArrays_word (hlead.not_mem hblank) hstart (wrappable_of_reads helement),
      htail.bracketArrays]
    exact .arrayOf hlead ih htail
  | @array element s mid tail hlevel helement hmid htail ih =>
    have hopen : IsMark '[' := by decide
    have hclose : IsMark ']' := by decide
    rw [hopen.bracketArrays (wrappable_of_reads helement), hclose.bracketArrays_blanks hmid,
      htail.bracketArrays]
    exact .array hlevel ih hmid htail
  | @operation op first second s u hfirst hsecond hs hu ihs ihu =>
    rw [op.isMark.bracketArrays (wrappable_of_reads hs)]
    exact .operation hfirst hsecond ihs ihu
  | @function row result lead s mid u hlead hrow hmid hresult ihrow ihresult =>
    have hopen : IsMark '(' := by decide
    have hclose : IsMark ')' := by decide
    have hequals : IsMark '=' := by decide
    have hangle : IsMark '>' := by decide
    have harrow : bracketArrays ('>' :: u) = '>' :: bracketArrays u :=
      hangle.bracketArrays_blanks (s := []) .nil u
    rw [hopen.bracketArrays_blanks hlead, hclose.bracketArrays (wrappable_of_reads hrow),
      hequals.bracketArrays_blanks hmid, harrow]
    exact .function hlead ihrow hmid ihresult
  | @members shape row lead s tail hlead hrow htail ih =>
    rw [shape.isMark_opening.bracketArrays_blanks hlead,
      shape.isMark_closing.bracketArrays (wrappable_of_reads hrow), htail.bracketArrays]
    exact .members hlead ih htail
  | @paren inner lead s tail hlead hinner htail ih =>
    have hopen : IsMark '(' := by decide
    have hclose : IsMark ')' := by decide
    rw [hopen.bracketArrays_blanks hlead, hclose.bracketArrays (wrappable_of_reads hinner),
      htail.bracketArrays]
    exact .paren hlead ih htail
  | @empty s hs =>
    rw [hs.bracketArrays]
    exact .empty hs
  | @last label member p s hlabel hs ih =>
    rw [hlabel.bracketArrays]
    exact .last hlabel ih
  | @cons label member separator rest p s u hlabel hs hseparator hu ihs ihu =>
    have hmark : IsMark separator := by rcases hseparator with rfl | rfl <;> decide
    rw [hlabel.bracketArrays, hmark.bracketArrays (wrappable_of_reads hs)]
    exact .cons hlabel ihs hseparator ihu

end NestClient.TypeText
