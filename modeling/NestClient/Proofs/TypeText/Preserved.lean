import NestClient.Proofs.TypeText.Reader

/-! Which types the rewriting of array types preserves.

* `reads_of_rewritten`: a type is preserved if no name is taken for that of arrays, and no element type
  misses its parentheses.
* `reads_bracketArrays_iff`: and only then, as the brackets of the rewritten text do not add up
  otherwise. -/

namespace NestClient.TypeText

variable {k : Part} {e : Phrase k} {s t u : Text} {c : Char}

namespace Phrase

/-- All types in a phrase, from the outermost to the innermost ones. -/
def types {k : Part} : Phrase k → List (Phrase .type)
  | name n => [name n]
  | generic head row => generic head row :: row.types
  | arrayOf element => arrayOf element :: element.types
  | array element => array element :: element.types
  | operation op first second => operation op first second :: (first.types ++ second.types)
  | function row result => function row result :: (row.types ++ result.types)
  | members shape row => members shape row :: row.types
  | paren inner => paren inner :: inner.types
  | empty => []
  | last _ member => member.types
  | cons _ member _ rest => member.types ++ rest.types

/-- A generic type whose name ends in the word for arrays, behind something that is no part of a word. -/
def isMistaken : Phrase .type → Bool
  | generic head _ => isArrayName head
  | _ => false

/-- An array of what binds less tightly than the suffix and yet gets no parentheses. -/
def isBare : Phrase .type → Bool
  | arrayOf element => element.level != 3 && !element.loose
  | _ => false

/-- The outermost part of a type is written with the bracket. -/
def opensWith (c : Char) : Phrase .type → Bool
  | generic _ _ | arrayOf _ => c = '<'
  | function _ _ | paren _ => c = '('
  | _ => false

/-- The rewriting leaves or puts the bracket there. -/
def leaves (c : Char) : Phrase .type → Bool
  | generic head row => if isArrayName head then c = '(' && row.loose else c = '<'
  | arrayOf element => c = '(' && element.loose
  | function _ _ | paren _ => c = '('
  | _ => false

/-- The type with array suffixes needs the bracket there. -/
def needs (c : Char) : Phrase .type → Bool
  | generic _ _ => c = '<'
  | arrayOf element => c = '(' && element.level != 3
  | function _ _ | paren _ => c = '('
  | _ => false

end Phrase

/-! ## Types that are preserved -/

/-- What the rewriting makes of an array type reads as the array type, if the element type gets its
parentheses. -/
theorem reads_bracketed {element : Phrase .type} {lead tail : Text} (hlead : Blanks lead)
    (hs : Rewritten element s) (hread : Reads element.arrays s) (htail : Blanks tail)
    (hbare : (Phrase.arrayOf element).isBare = false) :
    Reads (Phrase.arrayOf element).arrays (lead ++ (bracketed (Text.trim s) ++ tail)) := by
  rw [Phrase.arrays, bracketed, (showsOperator_of_rewritten hs).trim.needsParens]
  cases hloose : element.loose with
  | true =>
    have hlevel : element.level ≠ 3 := by
      intro hthree
      rw [Phrase.loose_of_level hthree] at hloose
      cases hloose
    have hwhole : lead ++ ('(' :: Text.trim s ++ ")[]".toList ++ tail)
        = (lead ++ '(' :: (Text.trim s ++ ')' :: [])) ++ '[' :: ([] ++ ']' :: tail) := by
      simp
    rw [if_neg hlevel, if_pos rfl, hwhole]
    exact (Reads.paren hlead hread.trim .nil).array rfl .nil htail
  | false =>
    have hlevel : element.level = 3 := by simpa [Phrase.isBare, hloose] using hbare
    have hwhole : lead ++ (Text.trim s ++ "[]".toList ++ tail)
        = (lead ++ Text.trim s) ++ '[' :: ([] ++ ']' :: tail) := by
      simp
    rw [if_pos hlevel, if_neg (by simp), hwhole]
    exact .array (by rwa [Phrase.level_arrays]) (hread.trim.blanks_append hlead) .nil htail

theorem reads_of_rewritten (h : Rewritten e t)
    (hkept : ∀ x ∈ e.types, x.isMistaken = false ∧ x.isBare = false) : Reads e.arrays t := by
  induction h with
  | name hname hlead htail => exact .name hname hlead htail
  | generic hhead hne hword hlead hrow htail ih =>
    exact .generic hhead hne hlead (ih (List.forall_mem_cons.1 hkept).2) htail
  | mistaken hhead hword hlead hrow htail ih =>
    have hno := (List.forall_mem_cons.1 hkept).1.1
    rw [Phrase.isMistaken, arrayWord, isArrayName_append hword] at hno
    cases hno
  | arrayOf hlead helement htail ih =>
    obtain ⟨⟨-, hbare⟩, hinside⟩ := List.forall_mem_cons.1 hkept
    exact reads_bracketed hlead helement (ih hinside) htail hbare
  | array hlevel helement hmid htail ih =>
    exact .array (by rwa [Phrase.level_arrays]) (ih (List.forall_mem_cons.1 hkept).2) hmid htail
  | operation hfirst hsecond hs hu ihs ihu =>
    obtain ⟨hkepts, hkeptu⟩ := List.forall_mem_append.1 (List.forall_mem_cons.1 hkept).2
    exact .operation (by rwa [Phrase.level_arrays]) (by rwa [Phrase.level_arrays]) (ihs hkepts) (ihu hkeptu)
  | function hlead hrow hmid hresult ihrow ihresult =>
    obtain ⟨hkepts, hkeptu⟩ := List.forall_mem_append.1 (List.forall_mem_cons.1 hkept).2
    exact .function hlead (ihrow hkepts) hmid (ihresult hkeptu)
  | members hlead hrow htail ih => exact .members hlead (ih (List.forall_mem_cons.1 hkept).2) htail
  | paren hlead hinner htail ih => exact .paren hlead (ih (List.forall_mem_cons.1 hkept).2) htail
  | empty hs => exact .empty hs
  | last hlabel hs ih => exact .last hlabel (ih hkept)
  | cons hlabel hs hseparator hu ihs ihu =>
    obtain ⟨hkepts, hkeptu⟩ := List.forall_mem_append.1 hkept
    exact .cons hlabel (ihs hkepts) hseparator (ihu hkeptu)

/-! ## Counting brackets -/

theorem not_isBlank_of_mark (hc : c = '<' ∨ c = '(') : isBlank c = false := by
  rcases hc with rfl | rfl <;> decide

theorem Blanks.count (h : Blanks t) (hc : c = '<' ∨ c = '(') : t.count c = 0 :=
  List.count_eq_zero.2 (h.not_mem (not_isBlank_of_mark hc))

theorem IsTypeName.count (h : IsTypeName t) (hc : c = '<' ∨ c = '(') : t.count c = 0 :=
  List.count_eq_zero.2 (h.not_mem (by rcases hc with rfl | rfl <;> decide))

theorem ReadsLabel.count {label : Option Text} (h : ReadsLabel label t) (hc : c = '<' ∨ c = '(') :
    t.count c = 0 := by
  cases h with
  | none => rfl
  | some hlabel hlead htail =>
    have hcolon : c ≠ ':' := by rcases hc with rfl | rfl <;> decide
    simp [hlabel.count hc, hlead.count hc, htail.count hc, hcolon.symm]

/-- A text has as many of the brackets as the types in its phrase open. -/
theorem count_of_reads (hc : c = '<' ∨ c = '(') (h : Reads e t) :
    t.count c = e.types.countP (Phrase.opensWith c) := by
  induction h with
  | name hname hlead htail =>
    simp [Phrase.types, Phrase.opensWith, hname.count hc, hlead.count hc, htail.count hc]
  | generic hhead hne hlead hrow htail ih =>
    rcases hc with rfl | rfl <;>
    simp [Phrase.types, Phrase.opensWith, hhead.count, hlead.count, htail.count, ih]
  | arrayOf hlead helement htail ih =>
    rcases hc with rfl | rfl <;>
    simp [Phrase.types, Phrase.opensWith, isTypeName_arrayWord.count, hlead.count, htail.count, ih]
  | array hlevel helement hmid htail ih =>
    rcases hc with rfl | rfl <;>
    simp [Phrase.types, Phrase.opensWith, hmid.count, htail.count, ih]
  | @operation op first second s u hfirst hsecond hs hu ihs ihu =>
    rcases hc with rfl | rfl <;> cases op <;>
    simp [Phrase.types, Phrase.opensWith, Operator.mark, ihs, ihu]
  | function hlead hrow hmid hresult ihrow ihresult =>
    rcases hc with rfl | rfl <;>
    simp [Phrase.types, Phrase.opensWith, hlead.count, hmid.count, ihrow, ihresult]
  | @members shape row lead s tail hlead hrow htail ih =>
    rcases hc with rfl | rfl <;> cases shape <;>
    simp [Phrase.types, Phrase.opensWith, Shape.opening, Shape.closing, hlead.count, htail.count, ih]
  | paren hlead hinner htail ih =>
    rcases hc with rfl | rfl <;>
    simp [Phrase.types, Phrase.opensWith, hlead.count, htail.count, ih]
  | empty hs => exact hs.count hc
  | last hlabel hs ih => simp [Phrase.types, hlabel.count hc, ih]
  | cons hlabel hs hseparator hu ihs ihu =>
    rcases hc with rfl | rfl <;> rcases hseparator with rfl | rfl <;>
    simp [Phrase.types, hlabel.count, ihs, ihu]

theorem count_bracketed (t : Text) (hc : c = '<' ∨ c = '(') :
    (bracketed t).count c = t.count c + if c = '(' ∧ needsParens t then 1 else 0 := by
  unfold bracketed
  rcases hc with rfl | rfl <;> split <;> simp [*]

theorem count_of_rewritten (hc : c = '<' ∨ c = '(') (h : Rewritten e t) :
    t.count c = e.types.countP (Phrase.leaves c) := by
  induction h with
  | name hname hlead htail =>
    simp [Phrase.types, Phrase.leaves, hname.count hc, hlead.count hc, htail.count hc]
  | generic hhead hne hword hlead hrow htail ih =>
    rcases hc with rfl | rfl <;>
    simp [Phrase.types, Phrase.leaves, hword, hhead.count, hlead.count, htail.count, ih]
  | @mistaken front row lead s tail hhead hword hlead hrow htail ih =>
    have hfront : front.count c = 0 := by
      have hwhole := hhead.count hc
      rw [List.count_append] at hwhole
      omega
    have hmistaken : isArrayName (front ++ arrayWord) = true := isArrayName_append hword
    have hshows := (showsOperator_of_rewritten hrow).trim.needsParens
    simp [Phrase.types, Phrase.leaves, List.countP_cons, hmistaken, hfront, hlead.count hc, htail.count hc,
      count_bracketed _ hc, Text.count_trim (not_isBlank_of_mark hc), hshows, ih]
  | arrayOf hlead helement htail ih =>
    have hshows := (showsOperator_of_rewritten helement).trim.needsParens
    simp [Phrase.types, Phrase.leaves, List.countP_cons, hlead.count hc, htail.count hc,
      count_bracketed _ hc, Text.count_trim (not_isBlank_of_mark hc), hshows, ih]
  | array hlevel helement hmid htail ih =>
    rcases hc with rfl | rfl <;>
    simp [Phrase.types, Phrase.leaves, hmid.count, htail.count, ih]
  | @operation op first second s u hfirst hsecond hs hu ihs ihu =>
    rcases hc with rfl | rfl <;> cases op <;>
    simp [Phrase.types, Phrase.leaves, Operator.mark, ihs, ihu]
  | function hlead hrow hmid hresult ihrow ihresult =>
    rcases hc with rfl | rfl <;>
    simp [Phrase.types, Phrase.leaves, hlead.count, hmid.count, ihrow, ihresult]
  | @members shape row lead s tail hlead hrow htail ih =>
    rcases hc with rfl | rfl <;> cases shape <;>
    simp [Phrase.types, Phrase.leaves, Shape.opening, Shape.closing, hlead.count, htail.count, ih]
  | paren hlead hinner htail ih =>
    rcases hc with rfl | rfl <;>
    simp [Phrase.types, Phrase.leaves, hlead.count, htail.count, ih]
  | empty hs => exact hs.count hc
  | last hlabel hs ih => simp [Phrase.types, hlabel.count hc, ih]
  | cons hlabel hs hseparator hu ihs ihu =>
    rcases hc with rfl | rfl <;> rcases hseparator with rfl | rfl <;>
    simp [Phrase.types, hlabel.count, ihs, ihu]

theorem countP_types_arrays {k : Part} (e : Phrase k) :
    e.arrays.types.countP (Phrase.opensWith c) = e.types.countP (Phrase.needs c) := by
  induction e with
  | arrayOf element ih =>
    rw [Phrase.arrays, Phrase.types, Phrase.types, List.countP_cons, List.countP_cons, ← ih]
    by_cases hlevel : element.level = 3
    · simp [hlevel, Phrase.opensWith, Phrase.needs]
    · simp [hlevel, Phrase.types, Phrase.opensWith, Phrase.needs, List.countP_cons]
  | _ => simp_all [Phrase.arrays, Phrase.types, Phrase.opensWith, Phrase.needs, List.countP_cons]

/-- Where one property implies another and as many have the one as the other, they are the same. -/
theorem imp_of_countP_eq {α : Type} {p q : α → Bool} {l : List α}
    (hpq : ∀ x ∈ l, p x = true → q x = true) (h : l.countP p = l.countP q) : ∀ x ∈ l, q x = true → p x = true := by
  induction l with
  | nil => simp
  | cons a l ih =>
    obtain ⟨ha, hl⟩ := List.forall_mem_cons.1 hpq
    have hle := List.countP_mono_left hl
    rw [List.countP_cons, List.countP_cons] at h
    cases hpa : p a with
    | true =>
      rw [if_pos hpa, if_pos (ha hpa)] at h
      exact List.forall_mem_cons.2 ⟨fun _ => hpa, ih hl (by omega)⟩
    | false =>
      rw [if_neg (by simp [hpa])] at h
      have hqa : ¬q a = true := by
        intro hqa
        rw [if_pos hqa] at h
        omega
      rw [if_neg hqa] at h
      exact List.forall_mem_cons.2 ⟨fun hq => absurd hq hqa, ih hl h⟩

namespace Phrase

theorem leaves_angle_iff (x : Phrase .type) :
    x.leaves '<' = true ↔ x.needs '<' = true ∧ x.isMistaken = false := by
  cases x <;> simp [leaves, needs, isMistaken]

theorem leaves_paren_iff {x : Phrase .type} (hx : x.isMistaken = false) :
    x.leaves '(' = true ↔ x.needs '(' = true ∧ x.isBare = false := by
  cases x with
  | generic head row =>
    rw [isMistaken] at hx
    simp [leaves, needs, hx]
  | arrayOf element =>
    have hlevel := mt (loose_of_level (e := element))
    rw [Bool.not_eq_false] at hlevel
    simp only [leaves, needs, isBare, decide_true, Bool.true_and, bne_iff_ne, Bool.and_eq_false_iff,
      bne_eq_false_iff_eq, Bool.not_eq_false']
    exact ⟨fun h => ⟨hlevel h, .inr h⟩, fun h => h.2.resolve_left h.1⟩
  | _ => simp [leaves, needs, isBare]

theorem needs_of_isMistaken {x : Phrase .type} (h : x.isMistaken = true) : x.needs '<' = true := by
  cases x with
  | generic head row => rfl
  | _ => cases h

theorem needs_of_isBare {x : Phrase .type} (h : x.isBare = true) : x.needs '(' = true := by
  cases x with
  | arrayOf element =>
    rw [isBare, Bool.and_eq_true] at h
    simpa [needs] using h.1
  | _ => cases h

end Phrase

/-! ## The types that the rewriting preserves -/

theorem kept_of_reads {e : Phrase .type} (h : Reads e t) (hread : Reads e.arrays (bracketArrays t)) :
    ∀ x ∈ e.types, x.isMistaken = false ∧ x.isBare = false := by
  have hcount : ∀ {c}, c = '<' ∨ c = '(' →
      e.types.countP (Phrase.leaves c) = e.types.countP (Phrase.needs c) := by
    intro c hc
    rw [← count_of_rewritten hc (rewritten_bracketArrays h), count_of_reads hc hread, countP_types_arrays]
  have hangle := imp_of_countP_eq (fun x _ hx => (x.leaves_angle_iff.1 hx).1) (hcount (.inl rfl))
  have hmistaken : ∀ x ∈ e.types, x.isMistaken = false := by
    intro x hx
    cases h : x.isMistaken with
    | false => rfl
    | true =>
      have hno := (x.leaves_angle_iff.1 (hangle x hx (Phrase.needs_of_isMistaken h))).2
      rwa [h] at hno
  have hparen := imp_of_countP_eq
    (fun x hx hleaves => ((Phrase.leaves_paren_iff (hmistaken x hx)).1 hleaves).1) (hcount (.inr rfl))
  intro x hx
  refine ⟨hmistaken x hx, ?_⟩
  cases h : x.isBare with
  | false => rfl
  | true =>
    have hno := ((Phrase.leaves_paren_iff (hmistaken x hx)).1
      (hparen x hx (Phrase.needs_of_isBare h))).2
    rwa [h] at hno

/-- The rewritten text reads as the type with array suffixes if and only if no name in it is mistaken for
that of arrays, and no element type of an array misses its parentheses: a function type does, unless it
ends in a union or an intersection. It reads as nothing else then. -/
theorem reads_bracketArrays_iff {e : Phrase .type} (h : Reads e t) :
    (Reads e.arrays (bracketArrays t) ↔ ∀ x ∈ e.types, x.isMistaken = false ∧ x.isBare = false) ∧
      (Reads e.arrays (bracketArrays t) → ∀ e', Reads e' (bracketArrays t) → e' = e.arrays) :=
  ⟨⟨kept_of_reads h, reads_of_rewritten (rewritten_bracketArrays h)⟩,
    fun hread _ hread' => eq_of_reads hread' hread⟩

/-- An array of functions becomes a function that returns an array. -/
theorem reads_bracketArrays_function :
    Reads (.arrayOf (.function .empty (.name "string".toList))) "Array<() => string>".toList ∧
      bracketArrays "Array<() => string>".toList = "() => string[]".toList ∧
      ¬Reads (Phrase.arrayOf (.function .empty (.name "string".toList))).arrays
        (bracketArrays "Array<() => string>".toList) := by
  have hstring : IsTypeName "string".toList := isTypeName_of_all (by decide) (by decide)
  have hspace : Blanks [' '] := List.forall_mem_singleton.2 (by decide)
  have hresult : Reads (.name "string".toList) ([' '] ++ ("string".toList ++ [])) :=
    .name hstring hspace .nil
  have hfunction : Reads (.function .empty (.name "string".toList)) "() => string".toList :=
    .function .nil (.empty .nil) hspace hresult
  have hread : Reads (.arrayOf (.function .empty (.name "string".toList))) "Array<() => string>".toList :=
    .arrayOf .nil hfunction .nil
  have hshown : bracketArrays "Array<() => string>".toList = "() => string[]".toList := by
    have harray := bracketArrays_word (s := []) (by simp) rfl (wrappable_of_reads hfunction) []
    rw [arrayOf, bracketArrays_of_not_mem (t := "() => string".toList) (by decide),
      bracketArrays_nil] at harray
    exact harray
  refine ⟨hread, hshown, fun harray => ?_⟩
  have hkept := (reads_bracketArrays_iff hread).1.1 harray _ List.mem_cons_self
  exact absurd hkept.2 (by decide)

end NestClient.TypeText
