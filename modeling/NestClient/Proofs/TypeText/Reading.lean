import NestClient.Proofs.TypeText.Parens

/-! Blanks around a text do not change what it reads as.

* `Reads.trim`: the text may be trimmed.
* `Reads.blanks_append`: and it may be given blanks. -/

namespace NestClient.TypeText

variable {k : Part} {e : Phrase k} {lead s t u : Text} {c m : Char}

/-! ## Blanks before and behind a mark -/

theorem Blanks.append (hs : Blanks s) (ht : Blanks t) : Blanks (s ++ t) :=
  fun c hc => (List.mem_append.1 hc).elim (hs c) (ht c)

/-- A blank before a mark belongs to what stands before the mark. -/
theorem cons_of_append_mark (hm : isBlank m = false) (hc : isBlank c = true)
    (h : s ++ m :: u = c :: t) : ∃ s', s = c :: s' ∧ t = s' ++ m :: u := by
  cases s with
  | nil =>
    obtain rfl : m = c := (List.cons.inj h).1
    rw [hm] at hc
    cases hc
  | cons d s =>
    obtain ⟨rfl, rfl⟩ := List.cons.inj h
    exact ⟨s, rfl, rfl⟩

/-- A blank at the end of a text with a mark belongs to what stands behind the mark. -/
theorem concat_of_append_mark (hm : isBlank m = false) (hc : isBlank c = true)
    (h : s ++ m :: u = t ++ [c]) : ∃ u', u = u' ++ [c] ∧ t = s ++ m :: u' := by
  rcases List.eq_nil_or_concat u with rfl | ⟨u', d, rfl⟩
  · obtain rfl : m = c := (List.append_inj' h rfl).2 |> List.cons.inj |>.1
    rw [hm] at hc
    cases hc
  · rw [List.concat_eq_append, List.append_cons, ← List.append_assoc] at h
    obtain ⟨rfl, hd⟩ := List.append_inj' h rfl
    obtain rfl : d = c := (List.cons.inj hd).1
    exact ⟨u', by rw [List.concat_eq_append], by simp⟩

/-- A blank before a name belongs to the blanks before it. -/
theorem cons_of_append_name {n : Text} (hn : IsTypeName n) (hlead : Blanks lead) (hc : isBlank c = true)
    (h : lead ++ (n ++ u) = c :: t) : ∃ lead', Blanks lead' ∧ t = lead' ++ (n ++ u) := by
  cases lead with
  | cons d lead =>
    exact ⟨lead, fun b hb => hlead b (List.mem_cons_of_mem d hb), (List.cons.inj h).2.symm⟩
  | nil =>
    cases n with
    | nil => exact absurd rfl hn.ne_nil
    | cons d n =>
      obtain rfl : d = c := (List.cons.inj h).1
      have hpart := hn.chars d List.mem_cons_self
      rw [isNamePart, hc] at hpart
      cases hpart

/-- A blank behind a name belongs to the blanks behind it. -/
theorem concat_of_append_name {n tail : Text} (hn : IsTypeName n) (htail : Blanks tail)
    (hc : isBlank c = true) (h : lead ++ (n ++ tail) = t ++ [c]) :
    ∃ tail', Blanks tail' ∧ t = lead ++ (n ++ tail') := by
  rcases List.eq_nil_or_concat tail with rfl | ⟨tail, d, rfl⟩
  · rcases List.eq_nil_or_concat n with rfl | ⟨n, d, rfl⟩
    · exact absurd rfl hn.ne_nil
    · rw [List.concat_eq_append, List.append_nil, ← List.append_assoc] at h
      obtain rfl : d = c := (List.cons.inj (List.append_inj' h rfl).2).1
      have hpart := hn.chars d (by rw [List.concat_eq_append]; exact List.mem_concat_self)
      rw [isNamePart, hc] at hpart
      cases hpart
  · rw [List.concat_eq_append] at h htail
    rw [← List.append_assoc, ← List.append_assoc] at h
    obtain ⟨rfl, -⟩ := List.append_inj' h rfl
    exact ⟨tail, fun b hb => htail b (List.mem_append_left [d] hb), List.append_assoc lead n tail⟩

theorem Blanks.of_cons (h : Blanks (c :: t)) : Blanks t :=
  fun b hb => h b (List.mem_cons_of_mem c hb)

theorem Blanks.of_append (h : Blanks (s ++ t)) : Blanks s :=
  fun b hb => h b (List.mem_append_left t hb)

/-! ## Reading -/

theorem Operator.isBlank_mark (op : Operator) : isBlank op.mark = false := by
  cases op <;> decide

theorem Shape.isBlank_opening (shape : Shape) : isBlank shape.opening = false := by
  cases shape <;> decide

theorem Shape.isBlank_closing (shape : Shape) : isBlank shape.closing = false := by
  cases shape <;> decide

theorem isBlank_separator {separator : Char} (h : separator = ',' ∨ separator = ';') :
    isBlank separator = false := by
  rcases h with rfl | rfl <;> decide

/-- A blank before a member of a row belongs to its label, or to its type if it has none. -/
theorem ReadsLabel.cons_of_append {label : Option Text} {p : Text} (h : ReadsLabel label p)
    (hc : isBlank c = true) (heq : p ++ u = c :: t) : (label = Option.none ∧ p = [] ∧ u = c :: t) ∨
      ∃ p', ReadsLabel label p' ∧ t = p' ++ u := by
  cases h with
  | none => exact .inl ⟨rfl, rfl, heq⟩
  | some hlabel hlead htail =>
    rw [List.append_assoc, List.append_assoc] at heq
    obtain ⟨lead, hlead', rfl⟩ := cons_of_append_name hlabel hlead hc heq
    exact .inr ⟨_, .some hlabel hlead' htail, by simp only [List.append_assoc]⟩

namespace Reads

theorem ne_nil {e : Phrase .type} (h : Reads e t) : t ≠ [] := by
  cases h with
  | name hname hlead htail => simp [hname.ne_nil]
  | _ => simp

theorem of_cons (h : Reads e u) (hc : isBlank c = true) : ∀ t, u = c :: t → Reads e t := by
  induction h with
  | name hname hlead htail =>
    intro t heq
    obtain ⟨lead, hlead', rfl⟩ := cons_of_append_name hname hlead hc heq
    exact .name hname hlead' htail
  | generic hhead hne hlead hrow htail =>
    intro t heq
    obtain ⟨lead, hlead', rfl⟩ := cons_of_append_name hhead hlead hc heq
    exact .generic hhead hne hlead' hrow htail
  | arrayOf hlead helement htail =>
    intro t heq
    obtain ⟨lead, hlead', rfl⟩ := cons_of_append_name isTypeName_arrayWord hlead hc heq
    exact .arrayOf hlead' helement htail
  | array hlevel helement hmid htail ih =>
    intro t heq
    obtain ⟨s, rfl, rfl⟩ := cons_of_append_mark (by decide) hc heq
    exact .array hlevel (ih s rfl) hmid htail
  | @operation op _ _ _ _ hfirst hsecond hs hu ihs =>
    intro t heq
    obtain ⟨s, rfl, rfl⟩ := cons_of_append_mark op.isBlank_mark hc heq
    exact .operation hfirst hsecond (ihs s rfl) hu
  | function hlead hrow hmid hresult =>
    intro t heq
    obtain ⟨lead, rfl, rfl⟩ := cons_of_append_mark (by decide) hc heq
    exact .function hlead.of_cons hrow hmid hresult
  | @members shape _ _ _ _ hlead hrow htail =>
    intro t heq
    obtain ⟨lead, rfl, rfl⟩ := cons_of_append_mark shape.isBlank_opening hc heq
    exact .members hlead.of_cons hrow htail
  | paren hlead hinner htail =>
    intro t heq
    obtain ⟨lead, rfl, rfl⟩ := cons_of_append_mark (by decide) hc heq
    exact .paren hlead.of_cons hinner htail
  | empty hs =>
    rintro t rfl
    exact .empty hs.of_cons
  | last hlabel hs ih =>
    intro t heq
    rcases hlabel.cons_of_append hc heq with ⟨rfl, rfl, hmember⟩ | ⟨p, hp, rfl⟩
    · exact .last .none (ih t hmember)
    · exact .last hp hs
  | cons hlabel hs hseparator hu ihs =>
    intro t heq
    rcases hlabel.cons_of_append hc heq with ⟨rfl, rfl, hmember⟩ | ⟨p, hp, rfl⟩
    · obtain ⟨s, rfl, rfl⟩ := cons_of_append_mark (isBlank_separator hseparator) hc hmember
      exact .cons .none (ihs s rfl) hseparator hu
    · exact .cons hp hs hseparator hu

theorem of_concat (h : Reads e u) (hc : isBlank c = true) : ∀ t, u = t ++ [c] → Reads e t := by
  induction h with
  | name hname hlead htail =>
    intro t heq
    obtain ⟨tail, htail', rfl⟩ := concat_of_append_name hname htail hc heq
    exact .name hname hlead htail'
  | generic hhead hne hlead hrow htail =>
    intro t heq
    rw [← List.append_assoc] at heq
    obtain ⟨u, hu, rfl⟩ := concat_of_append_mark (by decide) hc heq
    obtain ⟨tail, rfl, rfl⟩ := concat_of_append_mark (by decide) hc hu
    rw [List.append_assoc]
    exact .generic hhead hne hlead hrow htail.of_append
  | arrayOf hlead helement htail =>
    intro t heq
    rw [← List.append_assoc] at heq
    obtain ⟨u, hu, rfl⟩ := concat_of_append_mark (by decide) hc heq
    obtain ⟨tail, rfl, rfl⟩ := concat_of_append_mark (by decide) hc hu
    rw [List.append_assoc]
    exact .arrayOf hlead helement htail.of_append
  | array hlevel helement hmid htail =>
    intro t heq
    obtain ⟨u, hu, rfl⟩ := concat_of_append_mark (by decide) hc heq
    obtain ⟨tail, rfl, rfl⟩ := concat_of_append_mark (by decide) hc hu
    exact .array hlevel helement hmid htail.of_append
  | @operation op _ _ _ _ hfirst hsecond hs hu ihs ihu =>
    intro t heq
    obtain ⟨u, rfl, rfl⟩ := concat_of_append_mark op.isBlank_mark hc heq
    exact .operation hfirst hsecond hs (ihu u rfl)
  | @function row result lead s mid u hlead hrow hmid hresult ihrow ihresult =>
    intro t heq
    obtain ⟨behind, hbehind, rfl⟩ := concat_of_append_mark (by decide) hc heq
    obtain ⟨arrow, harrow, rfl⟩ := concat_of_append_mark (by decide) hc hbehind
    obtain ⟨angle, hangle, rfl⟩ := concat_of_append_mark (by decide) hc harrow
    obtain ⟨u, rfl, rfl⟩ := concat_of_append_mark (s := []) (by decide) hc hangle
    exact .function hlead hrow hmid (ihresult u rfl)
  | @members shape _ _ _ _ hlead hrow htail =>
    intro t heq
    obtain ⟨u, hu, rfl⟩ := concat_of_append_mark shape.isBlank_opening hc heq
    obtain ⟨tail, rfl, rfl⟩ := concat_of_append_mark shape.isBlank_closing hc hu
    exact .members hlead hrow htail.of_append
  | paren hlead hinner htail =>
    intro t heq
    obtain ⟨u, hu, rfl⟩ := concat_of_append_mark (by decide) hc heq
    obtain ⟨tail, rfl, rfl⟩ := concat_of_append_mark (by decide) hc hu
    exact .paren hlead hinner htail.of_append
  | empty hs =>
    rintro t rfl
    exact .empty hs.of_append
  | @last label member p s hlabel hs ih =>
    intro t heq
    rcases List.eq_nil_or_concat s with rfl | ⟨s, d, rfl⟩
    · exact absurd rfl hs.ne_nil
    · rw [List.concat_eq_append, ← List.append_assoc] at heq
      obtain ⟨rfl, hd⟩ := List.append_inj' heq rfl
      obtain rfl : d = c := (List.cons.inj hd).1
      exact .last hlabel (ih s List.concat_eq_append)
  | cons hlabel hs hseparator hu ihs ihu =>
    intro t heq
    rw [← List.append_assoc] at heq
    obtain ⟨u, rfl, rfl⟩ := concat_of_append_mark (isBlank_separator hseparator) hc heq
    rw [List.append_assoc]
    exact .cons hlabel hs hseparator (ihu u rfl)

theorem trim (h : Reads e t) : Reads e (Text.trim t) := by
  obtain ⟨lead, tail, ht, hlead, htail⟩ := Text.exists_trim t
  rw [ht] at h
  generalize Text.trim t = core at h
  have hbehind : Reads e (core ++ tail) := by
    clear ht
    induction lead with
    | nil => exact h
    | cons c lead ih =>
      exact ih (fun b hb => hlead b (List.mem_cons_of_mem c hb))
        (h.of_cons (hlead c List.mem_cons_self) _ rfl)
  clear h ht
  induction tail using List.reverseRecOn with
  | nil => rwa [List.append_nil] at hbehind
  | append_singleton tail c ih =>
    refine ih (fun b hb => htail b (List.mem_append_left [c] hb)) ?_
    exact hbehind.of_concat (htail c List.mem_concat_self) _ (by rw [List.append_assoc])

theorem blanks_append (h : Reads e t) (hlead : Blanks lead) : Reads e (lead ++ t) := by
  induction h with
  | name hname hlead' htail =>
    rw [← List.append_assoc]
    exact .name hname (hlead.append hlead') htail
  | generic hhead hne hlead' hrow htail =>
    rw [← List.append_assoc]
    exact .generic hhead hne (hlead.append hlead') hrow htail
  | arrayOf hlead' helement htail =>
    rw [← List.append_assoc]
    exact .arrayOf (hlead.append hlead') helement htail
  | array hlevel helement hmid htail ih =>
    rw [← List.append_assoc]
    exact .array hlevel ih hmid htail
  | operation hfirst hsecond hs hu ihs =>
    rw [← List.append_assoc]
    exact .operation hfirst hsecond ihs hu
  | function hlead' hrow hmid hresult =>
    rw [← List.append_assoc]
    exact .function (hlead.append hlead') hrow hmid hresult
  | members hlead' hrow htail =>
    rw [← List.append_assoc]
    exact .members (hlead.append hlead') hrow htail
  | paren hlead' hinner htail =>
    rw [← List.append_assoc]
    exact .paren (hlead.append hlead') hinner htail
  | empty hs => exact .empty (hlead.append hs)
  | @last label member p s hlabel hs ih =>
    cases hlabel with
    | none =>
      have hlast := Reads.last .none ih
      exact hlast
    | some hlabel hlead' htail =>
      rw [← List.append_assoc, ← List.append_assoc]
      exact .last (.some hlabel (hlead.append hlead') htail) hs
  | @cons label member separator rest p s u hlabel hs hseparator hu ihs =>
    cases hlabel with
    | none =>
      rw [List.nil_append, ← List.append_assoc]
      exact .cons .none ihs hseparator hu
    | some hlabel hlead' htail =>
      rw [← List.append_assoc, ← List.append_assoc lead]
      exact .cons (.some hlabel (hlead.append hlead') htail) hs hseparator hu

end Reads

end NestClient.TypeText
