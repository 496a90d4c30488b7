import NestClient.Proofs.TypeText.Reading

/-! A text reads as one type only.

* `readType`: a reader for the grammar, by recursive descent.
* `readType_of_reads`: it finds the type that a text reads as.
* `eq_of_reads`: so there is no other one. -/

namespace NestClient.TypeText

variable {s t u mid : Text} {c : Char} {n : Nat}

/-! ## The reader -/

def skipBlanks (t : Text) : Text := t.dropWhile isBlank

def behind? (c : Char) : Text → Option Text
  | [] => none
  | d :: rest => if d = c then some rest else none

/-- The label of a member, and what stands behind its colon. -/
def readLabel (t : Text) : Option Text × Text :=
  match behind? ':' (skipBlanks ((skipBlanks t).dropWhile isNamePart)) with
  | some rest => (some ((skipBlanks t).takeWhile isNamePart), rest)
  | none => (none, t)

/-- Further array suffixes; `inside` one the bracket is open. -/
def readSuffixes (inside : Bool) (e : Phrase .type) : Text → Option (Phrase .type × Text)
  | [] => if inside then none else some (e, [])
  | c :: rest =>
    if isBlank c then readSuffixes inside e rest
    else if inside then if c = ']' then readSuffixes false (.array e) rest else none
    else if c = '[' then readSuffixes true e rest
    else some (e, c :: rest)

def operator? (level : Nat) : Option Operator :=
  if level = 1 then some .union else if level = 2 then some .intersection else none

def shape? (c : Char) : Option Shape :=
  if c = Shape.tuple.opening then some .tuple else if c = Shape.object.opening then some .object else none

/-- The brackets that end a row. -/
def rowEnds : Text := ">)]\x7d".toList

def endsRow (t : Text) : Bool :=
  match t.head? with
  | none => true
  | some c => rowEnds.contains c

/-- What a row gives with the bracket that has to close it. -/
def closedBy (c : Char) (result : Option (Phrase .row × Text)) : Option (Phrase .row × Text) :=
  result.bind fun (row, rest) => (behind? c rest).map fun rest => (row, skipBlanks rest)

/-- The only member of a row, if it has no label. -/
def only? : Phrase .row → Option (Phrase .type)
  | .last none e => some e
  | _ => none

def applied? (head : Text) (row : Phrase .row) : Option (Phrase .type) :=
  if head = arrayWord then (only? row).map .arrayOf else some (.generic head row)

mutual

/-- A type whose operators bind at least as tightly as the level says. -/
def readType : Nat → Nat → Text → Option (Phrase .type × Text)
  | 0, _, _ => none
  | fuel + 1, level, t =>
    if level < 3 then
      (readType fuel (level + 1) t).bind fun (first, rest) =>
        match operator? level with
        | none => some (first, rest)
        | some op =>
          match behind? op.mark rest with
          | none => some (first, rest)
          | some rest =>
            (readType fuel level rest).map fun (second, rest) => (.operation op first second, rest)
    else (readBase fuel t).bind fun (e, rest) => readSuffixes false e rest

/-- A name with its arguments, or what stands in brackets. -/
def readBase : Nat → Text → Option (Phrase .type × Text)
  | 0, _ => none
  | fuel + 1, t =>
    match behind? '(' (skipBlanks t) with
    | some rest =>
      (closedBy ')' (readRow fuel rest)).bind fun (row, rest) =>
        match behind? '=' rest with
        | some rest =>
          (behind? '>' rest).bind fun rest =>
            (readType fuel 0 rest).map fun (result, rest) => (.function row result, rest)
        | none => (only? row).map fun inner => (.paren inner, rest)
    | none =>
      match (skipBlanks t).head?.bind shape? with
      | some shape => (closedBy shape.closing (readRow fuel (skipBlanks t).tail)).map fun (row, rest) =>
          (.members shape row, rest)
      | none =>
        match behind? '<' ((skipBlanks t).dropWhile isNamePart) with
        | some rest =>
          (closedBy '>' (readRow fuel rest)).bind fun (row, rest) =>
            (applied? ((skipBlanks t).takeWhile isNamePart) row).map fun e => (e, rest)
        | none =>
          some (.name ((skipBlanks t).takeWhile isNamePart),
            skipBlanks ((skipBlanks t).dropWhile isNamePart))

/-- Members up to the bracket that closes them. -/
def readRow : Nat → Text → Option (Phrase .row × Text)
  | 0, _ => none
  | fuel + 1, t =>
    if endsRow (skipBlanks t) then some (.empty, skipBlanks t)
    else (readType fuel 0 (readLabel t).2).bind fun (member, rest) =>
      match rest with
      | [] => some (.last (readLabel t).1 member, [])
      | separator :: rest =>
        if separator = ',' ∨ separator = ';' then
          (readRow fuel rest).map fun (more, rest) => (.cons (readLabel t).1 member separator more, rest)
        else some (.last (readLabel t).1 member, separator :: rest)

end

/-! ## What can stand behind a type -/

/-- The marks that can follow a type, with the level of what they continue; those at level zero end it. -/
def continuations : List (Char × Nat) :=
  [('>', 0), (')', 0), (']', 0), ('\x7d', 0), (',', 0), (';', 0), ('|', 1), ('&', 2), ('[', 3)]

/-- The text does not continue a type whose operators are of at least the level. -/
def Stops (level : Nat) (t : Text) : Prop :=
  ∀ c, t.head? = some c → ∃ x ∈ continuations, x.1 = c ∧ (x.2 = 0 ∨ x.2 < level)

theorem stops_nil : Stops n [] := by
  intro c hc
  cases hc

theorem stops_cons {l : Nat} (hc : (c, l) ∈ continuations) (hl : l = 0 ∨ l < n) : Stops n (c :: t) := by
  intro d hd
  obtain rfl : c = d := Option.some.inj hd
  exact ⟨(c, l), hc, rfl, hl⟩

theorem Operator.stops_mark (op : Operator) : Stops (op.level + 1) (op.mark :: t) := by
  refine stops_cons (l := op.level) ?_ (.inr (Nat.lt_succ_self _))
  cases op <;> decide

theorem behind?_self (c : Char) (t : Text) : behind? c (c :: t) = some t := if_pos rfl

theorem behind?_eq_none (h : t.head? ≠ some c) : behind? c t = none := by
  cases t with
  | nil => rfl
  | cons d rest => exact if_neg fun heq => h (by rw [List.head?_cons, heq])

namespace Stops

theorem mono {m : Nat} (h : Stops n t) (hm : n ≤ m) : Stops m t := by
  intro c hc
  obtain ⟨x, hx, hxc, hl⟩ := h c hc
  exact ⟨x, hx, hxc, hl.imp_right fun hlt => Nat.lt_of_lt_of_le hlt hm⟩

theorem apart (h : Stops n t) (hc : t.head? = some c) : isBlank c = false ∧ isNamePart c = false := by
  have htable : (continuations.all fun x => !isBlank x.1 && !isNamePart x.1) = true := by decide
  obtain ⟨x, hx, rfl, -⟩ := h c hc
  have hall := List.all_eq_true.1 htable x hx
  rwa [Bool.and_eq_true, Bool.not_eq_true', Bool.not_eq_true'] at hall

theorem behind? (h : Stops n t) (hc : ∀ x ∈ continuations, x.1 = c → x.2 ≠ 0 ∧ n ≤ x.2) :
    behind? c t = none := by
  refine behind?_eq_none fun hhead => ?_
  obtain ⟨x, hx, hxc, hl⟩ := h c hhead
  obtain ⟨hzero, hle⟩ := hc x hx hxc
  omega

theorem skipBlanks (h : Stops n t) : skipBlanks t = t :=
  Text.dropWhile_eq_self fun _ hc => (h.apart hc).1

end Stops

/-! ## Blanks and names -/

theorem Blanks.skipBlanks_append (h : Blanks s) (t : Text) : skipBlanks (s ++ t) = skipBlanks t :=
  List.dropWhile_append_of_pos h

theorem skipBlanks_cons (hc : isBlank c = false) (t : Text) : skipBlanks (c :: t) = c :: t :=
  List.dropWhile_cons_of_neg (by simp [hc])

namespace IsTypeName

variable {name lead : Text}

theorem head? (h : IsTypeName name) (t : Text) :
    ∃ c rest, name ++ t = c :: rest ∧ isNamePart c = true := by
  cases name with
  | nil => exact absurd rfl h.ne_nil
  | cons c rest => exact ⟨c, rest ++ t, rfl, h.chars c List.mem_cons_self⟩

theorem skipBlanks (h : IsTypeName name) (hlead : Blanks lead) (t : Text) :
    skipBlanks (lead ++ (name ++ t)) = name ++ t := by
  obtain ⟨c, rest, heq, hc⟩ := h.head? t
  rw [isNamePart, Bool.and_eq_true, Bool.not_eq_true'] at hc
  rw [hlead.skipBlanks_append, heq, skipBlanks_cons hc.1]

theorem behind? (h : IsTypeName name) (hc : isNamePart c = false) (t : Text) :
    behind? c (name ++ t) = none := by
  obtain ⟨d, rest, heq, hd⟩ := h.head? t
  refine behind?_eq_none fun hhead => ?_
  rw [heq] at hhead
  rw [Option.some.inj hhead, hc] at hd
  cases hd

theorem shape? (h : IsTypeName name) (t : Text) : (name ++ t).head?.bind shape? = none := by
  obtain ⟨c, rest, heq, hc⟩ := h.head? t
  rw [heq, List.head?_cons, Option.bind_some, TypeText.shape?, if_neg, if_neg]
  · rintro rfl
    exact absurd hc (by decide)
  · rintro rfl
    exact absurd hc (by decide)

end IsTypeName

/-! ## Array suffixes -/

theorem readSuffixes_blanks (h : Blanks s) (inside : Bool) (e : Phrase .type) (t : Text) :
    readSuffixes inside e (s ++ t) = readSuffixes inside e t := by
  induction s with
  | nil => rfl
  | cons c rest ih =>
    rw [List.cons_append, readSuffixes, if_pos (h c List.mem_cons_self), ih h.of_cons]

theorem readSuffixes_suffix (e : Phrase .type) (hmid : Blanks mid) (t : Text) :
    readSuffixes false e ('[' :: (mid ++ ']' :: t)) = readSuffixes false (.array e) t := by
  have hopen : readSuffixes false e ('[' :: (mid ++ ']' :: t))
      = readSuffixes true e (mid ++ ']' :: t) := rfl
  have hclose : readSuffixes true e (']' :: t) = readSuffixes false (.array e) t := rfl
  rw [hopen, readSuffixes_blanks hmid, hclose]

theorem readSuffixes_of_stops (h : Stops 3 t) (e : Phrase .type) :
    readSuffixes false e t = some (e, t) := by
  cases t with
  | nil => rfl
  | cons c rest =>
    have hc : c ≠ '[' := by
      rintro rfl
      obtain ⟨x, hx, hxc, hl⟩ := h '[' rfl
      have htable : ∀ x ∈ continuations, x.1 = '[' → x.2 = 3 := by decide
      have hthree := htable x hx hxc
      omega
    rw [readSuffixes, if_neg (by simp [(h.apart rfl).1]), if_neg (by simp), if_neg hc]

/-! ## Where a type begins -/

/-- After blanks the text begins with a name that is not a label, or with a bracket that opens. -/
inductive Begins : Text → Prop where
  | name {lead name tail t : Text} (hlead : Blanks lead) (hname : IsTypeName name) (htail : Blanks tail)
      (ht : ∀ c, t.head? = some c → isBlank c = false ∧ isNamePart c = false ∧ c ≠ ':') :
      Begins (lead ++ (name ++ (tail ++ t)))
  | bracket {lead t : Text} {c : Char} (hlead : Blanks lead) (hc : c ∈ "([\x7b".toList) :
      Begins (lead ++ c :: t)

theorem Stops.ne_colon (h : Stops n t) (hc : t.head? = some c) : c ≠ ':' := by
  obtain ⟨x, hx, rfl, -⟩ := h c hc
  have htable : ∀ x ∈ continuations, x.1 ≠ ':' := by decide
  exact htable x hx

theorem begins_of_reads {k : Part} {e : Phrase k} (h : Reads e s) :
    k = .type → ∀ u, Stops 4 u → Begins (s ++ u) := by
  induction h with
  | name hname hlead htail =>
    intro _ u hu
    rw [List.append_assoc, List.append_assoc]
    exact .name hlead hname htail fun c hc => ⟨(hu.apart hc).1, (hu.apart hc).2, hu.ne_colon hc⟩
  | @generic head row lead s tail hhead hne hlead hrow htail =>
    intro _ u _
    have hwhole : lead ++ (head ++ '<' :: (s ++ '>' :: tail)) ++ u
        = lead ++ (head ++ ([] ++ '<' :: (s ++ '>' :: (tail ++ u)))) := by simp
    rw [hwhole]
    refine .name hlead hhead .nil ?_
    rintro _ ⟨⟩
    decide
  | @arrayOf element lead s tail hlead helement htail =>
    intro _ u _
    have hwhole : lead ++ (arrayWord ++ '<' :: (s ++ '>' :: tail)) ++ u
        = lead ++ (arrayWord ++ ([] ++ '<' :: (s ++ '>' :: (tail ++ u)))) := by simp
    rw [hwhole]
    refine .name hlead isTypeName_arrayWord .nil ?_
    rintro _ ⟨⟩
    decide
  | array hlevel helement hmid htail ih =>
    intro _ u _
    rw [List.append_assoc]
    exact ih rfl _ (stops_cons (l := 3) (by decide) (.inr (by decide)))
  | @operation op first second s u hfirst hsecond hs hu ihs =>
    intro _ u _
    rw [List.append_assoc]
    refine ihs rfl _ (op.stops_mark.mono ?_)
    cases op <;> decide
  | function hlead =>
    intro _ u _
    rw [List.append_assoc]
    exact .bracket hlead (by decide)
  | @members shape row lead s tail hlead =>
    intro _ u _
    rw [List.append_assoc]
    exact .bracket hlead (by cases shape <;> decide)
  | paren hlead =>
    intro _ u _
    rw [List.append_assoc]
    exact .bracket hlead (by decide)
  | empty => exact fun hk => nomatch hk
  | last => exact fun hk => nomatch hk
  | cons => exact fun hk => nomatch hk

theorem endsRow_of_isNamePart (hc : isNamePart c = true) (t : Text) : endsRow (c :: t) = false := by
  have htable : (rowEnds.all fun c => !isNamePart c) = true := by decide
  rw [endsRow, List.head?_cons, ← Bool.not_eq_true]
  intro hends
  have hall := List.all_eq_true.1 htable c (List.contains_iff_mem.1 hends)
  rw [hc] at hall
  cases hall

theorem Begins.endsRow (h : Begins t) : endsRow (skipBlanks t) = false := by
  cases h with
  | name hlead hname htail ht =>
    obtain ⟨c, rest, heq, hc⟩ := hname.head? _
    rw [hname.skipBlanks hlead, heq, endsRow_of_isNamePart hc]
  | @bracket lead t c hlead hc =>
    have htable : ("([\x7b".toList.all fun c => !isBlank c && !TypeText.endsRow [c]) = true := by
      decide
    have hall := List.all_eq_true.1 htable c hc
    rw [Bool.and_eq_true, Bool.not_eq_true', Bool.not_eq_true'] at hall
    rw [hlead.skipBlanks_append, skipBlanks_cons hall.1]
    exact hall.2

theorem head?_blanks_append {tail : Text} (htail : Blanks tail)
    (ht : ∀ c, t.head? = some c → isNamePart c = false) (hc : (tail ++ t).head? = some c) :
    isNamePart c = false := by
  cases tail with
  | nil => exact ht c hc
  | cons d rest =>
    obtain rfl : d = c := Option.some.inj hc
    rw [isNamePart, htail d List.mem_cons_self]
    rfl

theorem Begins.readLabel (h : Begins t) : readLabel t = (none, t) := by
  cases h with
  | @name lead name tail t hlead hname htail ht =>
    have hrest := dropWhile_append_stop hname.chars
      fun c => head?_blanks_append htail fun c hc => (ht c hc).2.1
    have hblanks : skipBlanks t = t := Text.dropWhile_eq_self fun c hc => (ht c hc).1
    have hcolon : behind? ':' t = none := behind?_eq_none fun hc => (ht ':' hc).2.2 rfl
    rw [TypeText.readLabel, hname.skipBlanks hlead, hrest, htail.skipBlanks_append, hblanks, hcolon]
  | @bracket lead t c hlead hc =>
    have htable : ("([\x7b".toList.all fun c => !isBlank c && !isNamePart c && c != ':') = true := by
      decide
    have hall := List.all_eq_true.1 htable c hc
    rw [Bool.and_eq_true, Bool.and_eq_true, Bool.not_eq_true', Bool.not_eq_true', bne_iff_ne] at hall
    have hrest : (c :: t).dropWhile isNamePart = c :: t :=
      Text.dropWhile_eq_self (by rintro _ ⟨⟩; exact hall.1.2)
    have hcolon : behind? ':' (c :: t) = none := behind?_eq_none (by simpa using hall.2)
    rw [TypeText.readLabel, hlead.skipBlanks_append, skipBlanks_cons hall.1.1, hrest,
      skipBlanks_cons hall.1.1, hcolon]

/-- The label of a member is read, or else there is none. -/
theorem ReadsLabel.readLabel {label : Option Text} (h : ReadsLabel label s) (ht : Begins t) :
    readLabel (s ++ t) = (label, t) ∧ TypeText.endsRow (skipBlanks (s ++ t)) = false := by
  cases h with
  | none => exact ⟨ht.readLabel, ht.endsRow⟩
  | @some label lead tail hlabel hlead htail =>
    have hwhole : lead ++ (label ++ (tail ++ [':'])) ++ t
        = lead ++ (label ++ (tail ++ ':' :: t)) := by simp
    have hstop : ∀ c, (tail ++ ':' :: t).head? = Option.some c → isNamePart c = false :=
      fun c => head?_blanks_append htail (by rintro _ ⟨⟩; decide)
    rw [hwhole, TypeText.readLabel, hlabel.skipBlanks hlead, dropWhile_append_stop hlabel.chars hstop,
      htail.skipBlanks_append, skipBlanks_cons (by decide), behind?_self,
      takeWhile_append_stop hlabel.chars hstop]
    obtain ⟨c, rest, heq, hc⟩ := hlabel.head? (tail ++ ':' :: t)
    rw [heq]
    exact ⟨rfl, endsRow_of_isNamePart hc rest⟩

/-! ## What the reader finds -/

/-- With enough fuel the reader gives this. -/
def Found {α : Type} (f : Nat → Option α) (a : α) : Prop :=
  ∃ least, ∀ fuel, least ≤ fuel → f fuel = some a

namespace Found

variable {α β γ : Type} {f : Nat → Option α} {g : Nat → Option β} {g' : Nat → Option γ}
  {a a' : α} {b : β} {b' : γ}

theorem unique (h : Found f a) (h' : Found f a') : a = a' := by
  obtain ⟨least, hleast⟩ := h
  obtain ⟨least', hleast'⟩ := h'
  have ha := hleast (max least least') (Nat.le_max_left _ _)
  rw [hleast' (max least least') (Nat.le_max_right _ _)] at ha
  exact (Option.some.inj ha).symm

theorem of_succ (hf : ∀ fuel, f (fuel + 1) = some a) : Found f a := by
  refine ⟨1, fun fuel hfuel => ?_⟩
  obtain ⟨fuel, rfl⟩ : ∃ k, fuel = k + 1 := ⟨fuel - 1, by omega⟩
  exact hf fuel

theorem succ (hg : Found g b) (hf : ∀ fuel, g fuel = some b → f (fuel + 1) = some a) : Found f a := by
  obtain ⟨least, hleast⟩ := hg
  refine ⟨least + 1, fun fuel hfuel => ?_⟩
  obtain ⟨fuel, rfl⟩ : ∃ k, fuel = k + 1 := ⟨fuel - 1, by omega⟩
  exact hf fuel (hleast fuel (by omega))

theorem succ₂ (hg : Found g b) (hg' : Found g' b')
    (hf : ∀ fuel, g fuel = some b → g' fuel = some b' → f (fuel + 1) = some a) : Found f a := by
  obtain ⟨least, hleast⟩ := hg
  obtain ⟨least', hleast'⟩ := hg'
  refine ⟨max least least' + 1, fun fuel hfuel => ?_⟩
  obtain ⟨fuel, rfl⟩ : ∃ k, fuel = k + 1 := ⟨fuel - 1, by omega⟩
  exact hf fuel (hleast fuel (by omega)) (hleast' fuel (by omega))

end Found

/-- What the reader gives for a type, whatever stands behind it. -/
structure TypeFound (e : Phrase .type) (s : Text) : Prop where
  level : ∀ n ≤ e.level, ∀ u, Stops n u → Found (readType · n (s ++ u)) (e, u)
  suffixes : e.level = 3 → ∀ u, Stops 4 u → ∀ r, readSuffixes false e u = some r →
    Found (readType · 3 (s ++ u)) r

def RowFound (row : Phrase .row) (s : Text) : Prop :=
  ∀ c ∈ rowEnds, ∀ u, Found (readRow · (s ++ c :: u)) (row, c :: u)

variable {e : Phrase .type} {m : Nat}

theorem level_of_operator? {op : Operator} (h : operator? n = some op) : op.level = n := by
  unfold operator? at h
  split at h
  next hn => rw [hn, ← Option.some.inj h]; rfl
  next =>
    split at h
    next hn => rw [hn, ← Option.some.inj h]; rfl
    next => cases h

/-- Where no operator of a level follows, a type is read at that level as it is at the next one. -/
theorem found_of_succ_level (hn : n < 3) (hu : Stops n u) (h : Found (readType · (n + 1) t) (e, u)) :
    Found (readType · n t) (e, u) := by
  refine h.succ fun fuel hread => ?_
  rw [readType, if_pos hn, hread, Option.bind_some]
  cases hop : operator? n with
  | none => rfl
  | some op =>
    have hlevel := level_of_operator? hop
    have hnone : behind? op.mark u = none := by
      refine hu.behind? fun x hx hxc => ?_
      rw [← hlevel]
      cases op <;> revert x <;> decide
    dsimp only
    rw [hnone]

theorem found_of_le (hnm : n ≤ m) (hm : m ≤ 3) (hu : Stops n u) (h : Found (readType · m t) (e, u)) :
    Found (readType · n t) (e, u) := by
  induction hnm with
  | refl => exact h
  | @step m hle ih =>
    exact ih (by omega) (found_of_succ_level (by omega) (hu.mono hle) h)

theorem TypeFound.of_suffixes (hlevel : e.level = 3)
    (h : ∀ u, Stops 4 u → ∀ r, readSuffixes false e u = some r → Found (readType · 3 (s ++ u)) r) :
    TypeFound e s := by
  refine ⟨fun n hn u hu => ?_, fun _ => h⟩
  rw [hlevel] at hn
  have hthree := hu.mono hn
  exact found_of_le hn (by decide) hu (h u (hthree.mono (by decide)) _ (readSuffixes_of_stops hthree e))

theorem TypeFound.of_base (hlevel : e.level = 3)
    (h : ∀ u, Stops 4 u → Found (readBase · (s ++ u)) (e, u)) : TypeFound e s := by
  refine .of_suffixes hlevel fun u hu r hr => ?_
  refine (h u hu).succ fun fuel hread => ?_
  rw [readType, if_neg (by decide), hread]
  exact hr

theorem mem_continuations_of_rowEnds (hc : c ∈ rowEnds) : (c, 0) ∈ continuations := by
  have htable : (rowEnds.all fun c => continuations.contains (c, 0)) = true := by decide
  exact List.contains_iff_mem.1 (List.all_eq_true.1 htable c hc)

theorem stops_of_rowEnds (hc : c ∈ rowEnds) : Stops n (c :: t) :=
  stops_cons (mem_continuations_of_rowEnds hc) (.inl rfl)

theorem RowFound.last {label : Option Text} {p : Text} (hlabel : ReadsLabel label p) (hread : Reads e s)
    (h : TypeFound e s) : RowFound (.last label e) (p ++ s) := by
  intro c hc u
  have hstops : Stops 4 (c :: u) := stops_of_rowEnds hc
  obtain ⟨hlabels, hends⟩ := hlabel.readLabel (begins_of_reads hread rfl _ hstops)
  have hseparator : ¬(c = ',' ∨ c = ';') := by
    rintro (rfl | rfl) <;> exact absurd hc (by decide)
  refine (h.level 0 (Nat.zero_le _) (c :: u) (stops_of_rowEnds hc)).succ fun fuel hfound => ?_
  rw [List.append_assoc, readRow, hends, if_neg (by simp), hlabels, hfound, Option.bind_some]
  dsimp only
  rw [if_neg hseparator]

theorem RowFound.cons {label : Option Text} {p : Text} {separator : Char} {rest : Phrase .row}
    (hlabel : ReadsLabel label p) (hread : Reads e s) (hseparator : separator = ',' ∨ separator = ';')
    (h : TypeFound e s) (hrest : RowFound rest t) :
    RowFound (.cons label e separator rest) (p ++ (s ++ separator :: t)) := by
  intro c hc u
  have hstops : ∀ n, Stops n (separator :: (t ++ c :: u)) := by
    intro n
    rcases hseparator with rfl | rfl <;> exact stops_cons (l := 0) (by decide) (.inl rfl)
  obtain ⟨hlabels, hends⟩ := hlabel.readLabel (begins_of_reads hread rfl _ (hstops 4))
  have hfirst := h.level 0 (Nat.zero_le _) _ (hstops 0)
  refine hfirst.succ₂ (hrest c hc u) fun fuel hfound hmore => ?_
  rw [List.append_assoc, List.append_assoc, List.cons_append, readRow, hends, if_neg (by simp), hlabels,
    hfound, Option.bind_some]
  dsimp only
  rw [if_pos hseparator, hmore, Option.map_some]

theorem RowFound.empty (hs : Blanks s) : RowFound .empty s := by
  intro c hc u
  have hstops : Stops 0 (c :: u) := stops_of_rowEnds hc
  refine .of_succ fun fuel => ?_
  rw [readRow, hs.skipBlanks_append, hstops.skipBlanks, if_pos]
  exact List.contains_iff_mem.2 hc

theorem closedBy_self (c : Char) (row : Phrase .row) (t : Text) :
    closedBy c (some (row, c :: t)) = some (row, skipBlanks t) := by
  rw [closedBy, Option.bind_some]
  dsimp only
  rw [behind?_self, Option.map_some]

section Base

variable {lead tail : Text}

theorem readBase_name {name : Text} (hlead : Blanks lead) (hname : IsTypeName name)
    (ht : ∀ c, t.head? = some c → isNamePart c = false) (fuel : Nat) :
    readBase (fuel + 1) (lead ++ (name ++ t)) = match behind? '<' t with
      | some rest =>
        (closedBy '>' (readRow fuel rest)).bind fun (row, rest) =>
          (applied? name row).map fun e => (e, rest)
      | none => some (.name name, skipBlanks t) := by
  rw [readBase, hname.skipBlanks hlead, hname.behind? (by decide)]
  dsimp only
  rw [hname.shape?, dropWhile_append_stop hname.chars ht, takeWhile_append_stop hname.chars ht]

theorem TypeFound.name {name : Text} (hname : IsTypeName name) (hlead : Blanks lead) (htail : Blanks tail) :
    TypeFound (.name name) (lead ++ (name ++ tail)) := by
  refine .of_base rfl fun u hu => .of_succ fun fuel => ?_
  have hstop : ∀ c, (tail ++ u).head? = some c → isNamePart c = false :=
    fun c => head?_blanks_append htail fun c hc => (hu.apart hc).2
  have hangle : behind? '<' (tail ++ u) = none := by
    cases tail with
    | nil => exact hu.behind? (by decide)
    | cons d rest =>
      refine behind?_eq_none ?_
      rintro ⟨⟩
      exact absurd (htail '<' List.mem_cons_self) (by decide)
  rw [List.append_assoc, List.append_assoc, readBase_name hlead hname hstop, hangle,
    htail.skipBlanks_append, hu.skipBlanks]

theorem TypeFound.applied {name : Text} {row : Phrase .row} (hlevel : e.level = 3) (hname : IsTypeName name)
    (hlead : Blanks lead) (hrow : RowFound row s) (htail : Blanks tail) (he : applied? name row = some e) :
    TypeFound e (lead ++ (name ++ '<' :: (s ++ '>' :: tail))) := by
  refine .of_base hlevel fun u hu => ?_
  refine (hrow '>' (by decide) (tail ++ u)).succ fun fuel hread => ?_
  have hwhole : lead ++ (name ++ '<' :: (s ++ '>' :: tail)) ++ u
      = lead ++ (name ++ '<' :: (s ++ '>' :: (tail ++ u))) := by simp
  have hstop : ∀ c, ('<' :: (s ++ '>' :: (tail ++ u))).head? = some c → isNamePart c = false := by
    rintro _ ⟨⟩
    decide
  rw [hwhole, readBase_name hlead hname hstop, behind?_self]
  dsimp only
  rw [hread, closedBy_self, Option.bind_some, htail.skipBlanks_append, hu.skipBlanks, he, Option.map_some]

theorem TypeFound.members {shape : Shape} {row : Phrase .row} (hlead : Blanks lead) (hrow : RowFound row s)
    (htail : Blanks tail) :
    TypeFound (.members shape row) (lead ++ shape.opening :: (s ++ shape.closing :: tail)) := by
  refine .of_base rfl fun u hu => ?_
  have hclose : shape.closing ∈ rowEnds := by cases shape <;> decide
  have hparen : shape.opening ≠ '(' := by cases shape <;> decide
  have hshape : shape? shape.opening = some shape := by cases shape <;> rfl
  refine (hrow shape.closing hclose (tail ++ u)).succ fun fuel hread => ?_
  have hwhole : lead ++ shape.opening :: (s ++ shape.closing :: tail) ++ u
      = lead ++ shape.opening :: (s ++ shape.closing :: (tail ++ u)) := by simp
  rw [hwhole, readBase, hlead.skipBlanks_append, skipBlanks_cons shape.isBlank_opening,
    behind?_eq_none (by simpa using hparen)]
  dsimp only
  rw [List.head?_cons, Option.bind_some, hshape]
  dsimp only
  rw [List.tail_cons, hread, closedBy_self, Option.map_some, htail.skipBlanks_append, hu.skipBlanks]

/-- Behind the parentheses of a row an arrow decides what they are. -/
theorem readBase_paren {row : Phrase .row} {fuel : Nat} (hlead : Blanks lead)
    (hread : readRow fuel (s ++ ')' :: t) = some (row, ')' :: t)) :
    readBase (fuel + 1) (lead ++ '(' :: (s ++ ')' :: t)) = match behind? '=' (skipBlanks t) with
      | some rest => (behind? '>' rest).bind fun rest =>
          (readType fuel 0 rest).map fun (result, rest) => (.function row result, rest)
      | none => (only? row).map fun inner => (.paren inner, skipBlanks t) := by
  rw [readBase, hlead.skipBlanks_append, skipBlanks_cons (by decide), behind?_self]
  dsimp only
  rw [hread, closedBy_self, Option.bind_some]

theorem TypeFound.paren (hlead : Blanks lead) (hinner : RowFound (.last none e) s) (htail : Blanks tail) :
    TypeFound (.paren e) (lead ++ '(' :: (s ++ ')' :: tail)) := by
  refine .of_base rfl fun u hu => ?_
  refine (hinner ')' (by decide) (tail ++ u)).succ fun fuel hread => ?_
  have hwhole : lead ++ '(' :: (s ++ ')' :: tail) ++ u = lead ++ '(' :: (s ++ ')' :: (tail ++ u)) := by simp
  have harrow : behind? '=' u = none := hu.behind? (by decide)
  rw [hwhole, readBase_paren hlead hread, htail.skipBlanks_append, hu.skipBlanks, harrow]
  rfl

theorem TypeFound.function {row : Phrase .row} {result : Phrase .type} {u : Text} (hlead : Blanks lead)
    (hrow : RowFound row s) (hmid : Blanks mid) (hresult : TypeFound result u) :
    TypeFound (.function row result) (lead ++ '(' :: (s ++ ')' :: (mid ++ '=' :: '>' :: u))) := by
  refine ⟨fun n hn v hv => ?_, fun h => absurd h (by simp [Phrase.level])⟩
  obtain rfl : n = 0 := Nat.le_zero.1 hn
  have hwhole : lead ++ '(' :: (s ++ ')' :: (mid ++ '=' :: '>' :: u)) ++ v
      = lead ++ '(' :: (s ++ ')' :: (mid ++ '=' :: '>' :: (u ++ v))) := by simp
  have hbase : Found (readBase · (lead ++ '(' :: (s ++ ')' :: (mid ++ '=' :: '>' :: u)) ++ v))
      (.function row result, v) := by
    refine (hrow ')' (by decide) (mid ++ '=' :: '>' :: (u ++ v))).succ₂
      (hresult.level 0 (Nat.zero_le _) v hv) fun fuel hread hfound => ?_
    rw [hwhole, readBase_paren hlead hread, hmid.skipBlanks_append, skipBlanks_cons (by decide),
      behind?_self]
    dsimp only
    rw [behind?_self, Option.bind_some, hfound, Option.map_some]
  refine found_of_le (Nat.zero_le 3) (Nat.le_refl 3) hv ?_
  refine hbase.succ fun fuel hread => ?_
  rw [readType, if_neg (by decide), hread]
  exact readSuffixes_of_stops (hv.mono (by decide)) _

end Base

theorem TypeFound.operation {op : Operator} {first second : Phrase .type} {u : Text}
    (hfirst : op.level < first.level) (hsecond : op.level ≤ second.level) (hs : TypeFound first s)
    (hu : TypeFound second u) : TypeFound (.operation op first second) (s ++ op.mark :: u) := by
  have hlevel : op.level < 3 := by cases op <;> decide
  have hop : operator? op.level = some op := by cases op <;> rfl
  refine ⟨fun n hn v hv => ?_, fun h => absurd h (by rw [Phrase.level]; omega)⟩
  refine found_of_le (m := op.level) hn (Nat.le_of_lt hlevel) hv ?_
  refine (hs.level (op.level + 1) hfirst (op.mark :: (u ++ v)) op.stops_mark).succ₂
    (hu.level op.level hsecond v (hv.mono hn)) fun fuel hread hmore => ?_
  rw [List.append_assoc, List.cons_append, readType, if_pos hlevel, hread, Option.bind_some, hop]
  dsimp only
  rw [behind?_self]
  dsimp only
  rw [hmore, Option.map_some]

theorem TypeFound.array {tail : Text} (hlevel : e.level = 3) (hs : TypeFound e s) (hmid : Blanks mid)
    (htail : Blanks tail) : TypeFound (.array e) (s ++ '[' :: (mid ++ ']' :: tail)) := by
  refine .of_suffixes rfl fun u hu r hr => ?_
  have hwhole : s ++ '[' :: (mid ++ ']' :: tail) ++ u = s ++ '[' :: (mid ++ ']' :: (tail ++ u)) := by simp
  rw [hwhole]
  refine hs.suffixes hlevel _ (stops_cons (l := 3) (by decide) (.inr (by decide))) r ?_
  rw [readSuffixes_suffix e hmid, readSuffixes_blanks htail]
  exact hr

/-- What the reader finds, part by part. -/
def FoundIn : {k : Part} → Phrase k → Text → Prop
  | .type, e, s => TypeFound e s
  | .row, row, s => RowFound row s

theorem foundIn_of_reads {k : Part} {e : Phrase k} (h : Reads e s) : FoundIn e s := by
  induction h with
  | name hname hlead htail => exact TypeFound.name hname hlead htail
  | generic hhead hne hlead hrow htail ih =>
    exact TypeFound.applied rfl hhead hlead ih htail (if_neg hne)
  | arrayOf hlead helement htail ih =>
    have hrow := RowFound.last .none helement ih
    exact TypeFound.applied rfl isTypeName_arrayWord hlead hrow htail rfl
  | array hlevel helement hmid htail ih => exact TypeFound.array hlevel ih hmid htail
  | operation hfirst hsecond hs hu ihs ihu => exact TypeFound.operation hfirst hsecond ihs ihu
  | function hlead hrow hmid hresult ihrow ihresult => exact TypeFound.function hlead ihrow hmid ihresult
  | members hlead hrow htail ih => exact TypeFound.members hlead ih htail
  | paren hlead hinner htail ih => exact TypeFound.paren hlead (RowFound.last .none hinner ih) htail
  | empty hs => exact RowFound.empty hs
  | last hlabel hs ih => exact RowFound.last hlabel hs ih
  | cons hlabel hs hseparator hu ihs ihu => exact RowFound.cons hlabel hs hseparator ihs ihu

/-- With enough fuel the reader finds the type that a text reads as. -/
theorem readType_of_reads (h : Reads e t) : Found (readType · 0 t) (e, []) := by
  have hfound := (foundIn_of_reads h : TypeFound e t).level 0 (Nat.zero_le _) [] stops_nil
  rwa [List.append_nil] at hfound

/-- A text reads as one type only. -/
theorem eq_of_reads {e' : Phrase .type} (h : Reads e t) (h' : Reads e' t) : e = e' :=
  (Prod.mk.inj ((readType_of_reads h).unique (readType_of_reads h'))).1

end NestClient.TypeText
