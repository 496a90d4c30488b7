import NestClient.Proofs.TypeText.Cut
import NestClient.TypeText.Missing

/-! The members of a text: its pieces between the separators that stand outside of all brackets.

* `cut_induction`: the first such separator ends the first piece, and what follows it is cut as it is for
  itself, whatever the brackets of the text are like.
* `members_splitTopLevel`, `Members.splitTopLevel_join`: what the pieces of a text have in common, and
  that pieces like these, once they are joined, are found again.
* `stripMissing_clean`: taking the missing value away leaves the other members as they are. -/

namespace NestClient.TypeText

variable {sep : Char} {before : Option Char} {s t u lead tail : Text} {ms : List Text}

/-! ## The first separator -/

theorem cut_of_ne (h : before ≠ some '=') (isSep : Char → Bool) (d : Int) (t : Text) :
    cut isSep before d t = cut isSep none d t := by
  cases t with
  | nil => rfl
  | cons c rest => rw [cut_cons, cut_cons, bracketWeight_of_ne h]

theorem ne_of_separator (h : sep ∈ "|&,".toList) : some sep ≠ some '=' ∧ isBlank sep = false := by
  have hall : ("|&,".toList.all fun c => some c ≠ some '=' ∧ isBlank c = false) = true := by decide
  exact of_decide_eq_true (List.all_eq_true.1 hall sep h)

theorem cut_of_not_standsOpen (hsep : sep ∈ "|&,".toList) (h : ¬StandsOpen sep t) :
    cut (· = sep) none 0 t = [t] :=
  cut_eq_singleton ((length_cut_eq_one hsep).2 h)

theorem cut_append_cons (hsep : sep ∈ "|&,".toList) (hs : ¬StandsOpen sep s)
    (hdepth : bracketDepth none s = 0) (u : Text) :
    cut (· = sep) none 0 (s ++ sep :: u) = s :: cut (· = sep) none 0 u := by
  obtain ⟨front, last, first, more, hfront, hrest, hwhole⟩ := cut_append (· = sep) none 0 s (sep :: u)
  rw [cut_of_not_standsOpen hsep hs] at hfront
  obtain ⟨rfl, hlast⟩ := List.append_eq_singleton_iff.1 hfront.symm |>.resolve_right (by simp)
  obtain rfl := List.singleton_inj.1 hlast
  -- the separator stands at depth zero, so that the second text begins with an empty piece
  rw [hdepth, cut_cons, if_pos ⟨bracketWeight_separator hsep _, by simp, rfl⟩,
    cut_of_ne (ne_of_separator hsep).1] at hrest
  obtain ⟨rfl, rfl⟩ := List.cons.inj hrest
  rw [hwhole, List.append_nil, List.nil_append]
  rfl

/-- Of the separators that stand outside of all brackets one is the first. -/
theorem StandsOpen.exists_first (h : StandsOpen sep t) :
    ∃ front rest, t = front ++ sep :: rest ∧ bracketDepth none front = 0 ∧ ¬StandsOpen sep front := by
  obtain ⟨front, rest, rfl, hdepth⟩ := h
  induction hn : front.length using Nat.strongRecOn generalizing front rest with
  | ind n ih =>
    by_cases hopen : StandsOpen sep front
    · obtain ⟨earlier, between, rfl, hearlier⟩ := hopen
      have hlength : earlier.length < n := by
        rw [← hn, List.length_append, List.length_cons]
        omega
      have hfirst := ih _ hlength earlier (between ++ sep :: rest) hearlier rfl
      rwa [List.append_assoc, List.cons_append]
    · exact ⟨front, rest, rfl, hdepth, hopen⟩

/-- A text is in one piece, or its first piece ends at a separator outside of all brackets. -/
@[elab_as_elim]
theorem cut_induction (sep : Char) {motive : Text → Prop}
    (whole : ∀ t, ¬StandsOpen sep t → motive t)
    (first : ∀ front rest, ¬StandsOpen sep front → bracketDepth none front = 0 → motive rest →
      motive (front ++ sep :: rest))
    (t : Text) : motive t := by
  induction hn : t.length using Nat.strongRecOn generalizing t with
  | ind n ih =>
    by_cases hopen : StandsOpen sep t
    · obtain ⟨front, rest, rfl, hdepth, hfront⟩ := hopen.exists_first
      rw [List.length_append, List.length_cons] at hn
      exact first front rest hfront hdepth (ih rest.length (by omega) rest rfl)
    · exact whole t hopen

/-! ## Blanks around a piece -/

theorem Blanks.getLast?_ne (h : Blanks s) : s.getLast?.or none ≠ some '=' := by
  rw [Option.or_none]
  intro hlast
  exact absurd (h '=' (List.mem_of_getLast? hlast)) (by decide)

theorem Blanks.bracketDepth (h : Blanks s) : bracketDepth before s = 0 := by
  induction s generalizing before with
  | nil => rfl
  | cons c rest ih =>
    have hplain : c ∉ structureMarks := by
      intro hmem
      have hmarks : ∀ m ∈ structureMarks, (!isBlank m) = true := List.all_eq_true.1 (by decide)
      simpa [h c List.mem_cons_self] using hmarks c hmem
    rw [TypeText.bracketDepth, bracketWeight_of_not_mem hplain,
      ih fun b hb => h b (List.mem_cons_of_mem c hb)]
    rfl

theorem Blanks.bracketDepth_append (h : Blanks lead) (s : Text) :
    TypeText.bracketDepth none (lead ++ s) = TypeText.bracketDepth none s := by
  rw [TypeText.bracketDepth_append, h.bracketDepth, bracketDepth_of_ne h.getLast?_ne, Int.zero_add]

theorem bracketDepth_trim (t : Text) : bracketDepth none (Text.trim t) = bracketDepth none t := by
  obtain ⟨lead, tail, ht, hlead, htail⟩ := Text.exists_trim t
  conv_rhs => rw [ht]
  rw [Blanks.bracketDepth_append hlead, bracketDepth_append, Blanks.bracketDepth htail, Int.add_zero]

theorem standsOpen_blanks (hsep : isBlank sep = false) (hlead : Blanks lead) (htail : Blanks tail) :
    StandsOpen sep (lead ++ (s ++ tail)) ↔ StandsOpen sep s := by
  have hnone : ∀ {part : Text}, Blanks part → sep ∉ part := by
    intro part hpart hmem
    rw [hpart sep hmem] at hsep
    cases hsep
  constructor
  · rintro ⟨front, rest, heq, hdepth⟩
    obtain ⟨between, hbetween, rfl⟩ : ∃ between, s ++ tail = between ++ sep :: rest ∧
        front = lead ++ between := by
      rw [← List.nil_append (lead ++ (s ++ tail))] at heq
      rcases Text.cons_append_cases (hnone hlead) heq with h | ⟨between, hnil, -⟩
      · exact h
      · simp at hnil
    rw [hlead.bracketDepth_append] at hdepth
    rw [← List.append_nil tail] at hbetween
    rcases Text.cons_append_cases (hnone htail) hbetween with ⟨more, hnil, -⟩ | ⟨more, rfl, -⟩
    · simp at hnil
    · exact ⟨between, more, rfl, hdepth⟩
  · rintro ⟨front, rest, rfl, hdepth⟩
    refine ⟨lead ++ front, rest ++ tail, by simp, ?_⟩
    rw [hlead.bracketDepth_append, hdepth]

theorem standsOpen_trim (hsep : isBlank sep = false) : StandsOpen sep (Text.trim t) ↔ StandsOpen sep t := by
  obtain ⟨lead, tail, ht, hlead, htail⟩ := Text.exists_trim t
  conv_rhs => rw [ht]
  rw [standsOpen_blanks hsep hlead htail]

theorem trim_blanks_append (h : Blanks lead) (s : Text) : Text.trim (lead ++ s) = Text.trim s := by
  rw [Text.trim, Text.trim, Text.trimBy, Text.trimBy, List.dropWhile_append_of_pos h]

theorem trim_append_blanks (h : Blanks tail) (s : Text) : Text.trim (s ++ tail) = Text.trim s := by
  induction tail generalizing s with
  | nil => rw [List.append_nil]
  | cons c rest ih =>
    rw [List.append_cons, ih fun b hb => h b (List.mem_cons_of_mem c hb),
      Text.trim_concat_blank (h c List.mem_cons_self)]

/-! ## The pieces of a text -/

theorem splitTopLevel_of_not_standsOpen (hsep : sep ∈ "|&,".toList) (h : ¬StandsOpen sep t) :
    splitTopLevel sep t = [Text.trim t] := by
  rw [splitTopLevel, splitTopLevelBy, cut_of_not_standsOpen hsep h, List.map_singleton]

theorem splitTopLevel_append_cons (hsep : sep ∈ "|&,".toList) (hs : ¬StandsOpen sep s)
    (hdepth : bracketDepth none s = 0) (u : Text) :
    splitTopLevel sep (s ++ sep :: u) = Text.trim s :: splitTopLevel sep u := by
  rw [splitTopLevel, splitTopLevelBy, cut_append_cons hsep hs hdepth, List.map_cons]
  rfl

theorem splitTopLevel_blanks_append (hsep : sep ∈ "|&,".toList) (hlead : Blanks lead) (t : Text) :
    splitTopLevel sep (lead ++ t) = splitTopLevel sep t := by
  have hblanks : ∀ s, StandsOpen sep (lead ++ s) ↔ StandsOpen sep s := fun s => by
    have h := standsOpen_blanks (s := s) (ne_of_separator hsep).2 hlead Blanks.nil
    rwa [List.append_nil] at h
  by_cases hopen : StandsOpen sep t
  · obtain ⟨front, rest, rfl, hdepth, hfront⟩ := hopen.exists_first
    rw [← List.append_assoc, splitTopLevel_append_cons hsep (mt (hblanks front).1 hfront)
      (by rw [hlead.bracketDepth_append, hdepth]), splitTopLevel_append_cons hsep hfront hdepth,
      trim_blanks_append hlead]
  · rw [splitTopLevel_of_not_standsOpen hsep (mt (hblanks t).1 hopen),
      splitTopLevel_of_not_standsOpen hsep hopen, trim_blanks_append hlead]

/-- Texts that can be the pieces of one: no separator stands open in any of them, and all but the last
close the brackets that they open. -/
structure Members (sep : Char) (ms : List Text) : Prop where
  trimmed : ∀ m ∈ ms, Text.Trimmed m
  whole : ∀ m ∈ ms, ¬StandsOpen sep m
  closed : ms.Pairwise fun m _ => bracketDepth none m = 0

namespace Members

theorem sublist {kept : List Text} (h : Members sep ms) (hkept : kept.Sublist ms) : Members sep kept :=
  ⟨fun m hm => h.trimmed m (hkept.subset hm), fun m hm => h.whole m (hkept.subset hm),
    h.closed.sublist hkept⟩

theorem singleton (hsep : sep ∈ "|&,".toList) (h : ¬StandsOpen sep t) : Members sep [Text.trim t] where
  trimmed := by
    intro m hm
    rw [List.mem_singleton.1 hm]
    exact Text.trimmed_trim t
  whole := by
    intro m hm
    rw [List.mem_singleton.1 hm, standsOpen_trim (ne_of_separator hsep).2]
    exact h
  closed := List.pairwise_singleton _ _

theorem cons (h : Members sep ms) {m : Text} (hm : Members sep [m]) (hdepth : bracketDepth none m = 0) :
    Members sep (m :: ms) where
  trimmed := List.forall_mem_cons.2 ⟨hm.trimmed m List.mem_cons_self, h.trimmed⟩
  whole := List.forall_mem_cons.2 ⟨hm.whole m List.mem_cons_self, h.whole⟩
  closed := List.pairwise_cons.2 ⟨fun _ _ => hdepth, h.closed⟩

/-- Pieces that are joined, with blanks around the separator or without, are found again. -/
theorem splitTopLevel_join (hsep : sep ∈ "|&,".toList) (hlead : Blanks lead) (htail : Blanks tail)
    (h : Members sep ms) (hne : ms ≠ []) :
    splitTopLevel sep (Text.join (lead ++ sep :: tail) ms) = ms := by
  induction ms with
  | nil => exact absurd rfl hne
  | cons m more ih =>
    have hm := h.whole m List.mem_cons_self
    have htrim := (h.trimmed m List.mem_cons_self).trim_eq
    cases more with
    | nil => rw [Text.join_singleton, splitTopLevel_of_not_standsOpen hsep hm, htrim]
    | cons next more =>
      have hrest := h.sublist (List.sublist_cons_self m (next :: more))
      have hdepth : bracketDepth none m = 0 := List.rel_of_pairwise_cons h.closed List.mem_cons_self
      have hopen : ¬StandsOpen sep (m ++ lead) := by
        have hblanks := standsOpen_blanks (s := m) (ne_of_separator hsep).2 Blanks.nil hlead
        rw [List.nil_append] at hblanks
        exact mt hblanks.1 hm
      have hclosed : bracketDepth none (m ++ lead) = 0 := by
        rw [bracketDepth_append, hlead.bracketDepth, hdepth, Int.add_zero]
      have hjoin : Text.join (lead ++ sep :: tail) (m :: next :: more)
          = (m ++ lead) ++ sep :: (tail ++ Text.join (lead ++ sep :: tail) (next :: more)) := by
        rw [Text.join_cons_cons]
        simp only [List.append_assoc, List.cons_append]
      rw [hjoin, splitTopLevel_append_cons hsep hopen hclosed, trim_append_blanks hlead, htrim,
        splitTopLevel_blanks_append hsep htail, ih hrest (List.cons_ne_nil next more)]

end Members

theorem members_splitTopLevel (hsep : sep ∈ "|&,".toList) (t : Text) :
    Members sep (splitTopLevel sep t) := by
  induction t using cut_induction sep with
  | whole t h =>
    rw [splitTopLevel_of_not_standsOpen hsep h]
    exact .singleton hsep h
  | first front rest hfront hdepth ih =>
    rw [splitTopLevel_append_cons hsep hfront hdepth]
    exact ih.cons (.singleton hsep hfront) (by rw [bracketDepth_trim, hdepth])

/-! ## The missing value among the members -/

/-- The members of a union that stay when the missing value is taken away. -/
def presentMembers (t : Text) : List Text := (splitTopLevel '|' t).filter (· ≠ missingValue)

theorem mem_presentMembers {m : Text} : m ∈ presentMembers t ↔ m ∈ splitTopLevel '|' t ∧ m ≠ missingValue := by
  rw [presentMembers, List.mem_filter, decide_eq_true_eq]

theorem stripMissing_eq (t : Text) : stripMissing t =
    if missingValue ∈ splitTopLevel '|' t ∧ presentMembers t ≠ [] then
      (Text.join " | ".toList (presentMembers t), true)
    else (t, false) := by
  have hlength : (presentMembers t).length = (splitTopLevel '|' t).length
      ↔ missingValue ∉ splitTopLevel '|' t := by
    rw [presentMembers, List.length_filter_eq_length_iff]
    constructor
    · intro hall hmem
      exact absurd (hall missingValue hmem) (by simp)
    · intro hnone m hm
      refine decide_eq_true fun heq => hnone ?_
      rwa [← heq]
  have hcond : ((presentMembers t).length = (splitTopLevel '|' t).length || (presentMembers t).isEmpty) = true
      ↔ ¬(missingValue ∈ splitTopLevel '|' t ∧ presentMembers t ≠ []) := by
    rw [Bool.or_eq_true, decide_eq_true_eq, hlength, List.isEmpty_iff, Classical.not_and_iff_not_or_not,
      Classical.not_not]
  unfold stripMissing
  dsimp only
  rw [← presentMembers]
  split
  · next h => rw [if_neg (hcond.1 h)]
  · next h => rw [if_pos (Classical.not_not.1 (mt hcond.2 h))]

theorem splitTopLevel_join_present (h : presentMembers t ≠ []) :
    splitTopLevel '|' (Text.join " | ".toList (presentMembers t)) = presentMembers t := by
  have hblank : Blanks [' '] := fun c hc => by
    rw [List.mem_singleton.1 hc]
    decide
  have hmembers : Members '|' (presentMembers t) :=
    (members_splitTopLevel (by decide) t).sublist List.filter_sublist
  exact hmembers.splitTopLevel_join (by decide) hblank hblank h

/-- Where the missing value is taken away, the union has the other members left, in order and as they
were, and there is nothing more to take away; else the text stays as it is, and none of its members is the
missing value or all of them are. -/
theorem stripMissing_clean (t : Text) :
    (∀ u, stripMissing t = (u, true) →
      splitTopLevel '|' u = (splitTopLevel '|' t).filter (· ≠ missingValue) ∧
        missingValue ∈ splitTopLevel '|' t ∧ (∃ m ∈ splitTopLevel '|' t, m ≠ missingValue) ∧
        stripMissing u = (u, false)) ∧
    ∀ u, stripMissing t = (u, false) →
      u = t ∧ (missingValue ∉ splitTopLevel '|' t ∨ ∀ m ∈ splitTopLevel '|' t, m = missingValue) := by
  rw [stripMissing_eq]
  split
  next h =>
    obtain ⟨hmissing, hne⟩ := h
    refine ⟨fun u hu => ?_, fun u hu => absurd (congrArg Prod.snd hu) (by simp)⟩
    obtain rfl : Text.join " | ".toList (presentMembers t) = u := congrArg Prod.fst hu
    have hsplit := splitTopLevel_join_present hne
    obtain ⟨m, hm⟩ := List.exists_mem_of_ne_nil _ hne
    have hgone : missingValue ∉ splitTopLevel '|' (Text.join " | ".toList (presentMembers t)) := by
      rw [hsplit, mem_presentMembers]
      exact fun hmem => hmem.2 rfl
    refine ⟨hsplit, hmissing, ⟨m, mem_presentMembers.1 hm⟩, ?_⟩
    rw [stripMissing_eq, if_neg fun hmem => hgone hmem.1]
  next h =>
    refine ⟨fun u hu => absurd (congrArg Prod.snd hu) (by simp), fun u hu => ?_⟩
    refine ⟨(congrArg Prod.fst hu).symm, ?_⟩
    by_cases hmissing : missingValue ∈ splitTopLevel '|' t
    · refine .inr fun m hm => Classical.byContradiction fun hne => h ⟨hmissing, ?_⟩
      exact List.ne_nil_of_mem (mem_presentMembers.2 ⟨hm, hne⟩)
    · exact .inl hmissing

/-- One member holds a bar and the missing value inside of its brackets, another never closes the bracket
that it opens; and a union of nothing but missing values. -/
theorem stripMissing_clean_nested :
    stripMissing "undefined |Map<A|undefined, B>|undefined| (C".toList
        = ("Map<A|undefined, B> | (C".toList, true) ∧
      splitTopLevel '|' "Map<A|undefined, B> | (C".toList
        = ["Map<A|undefined, B>".toList, "(C".toList] ∧
      stripMissing "Map<A|undefined, B> | (C".toList = ("Map<A|undefined, B> | (C".toList, false) ∧
      stripMissing "undefined|undefined".toList = ("undefined|undefined".toList, false) ∧
      ∀ m ∈ splitTopLevel '|' "undefined|undefined".toList, m = missingValue := by
  have hstrip : stripMissing "undefined |Map<A|undefined, B>|undefined| (C".toList
      = ("Map<A|undefined, B> | (C".toList, true) := by decide +kernel
  have hsame : stripMissing "undefined|undefined".toList = ("undefined|undefined".toList, false) := by
    decide +kernel
  obtain ⟨hmembers, -, -, hagain⟩ := (stripMissing_clean _).1 _ hstrip
  have hall := ((stripMissing_clean _).2 _ hsame).2.resolve_left (by decide +kernel)
  exact ⟨hstrip, hmembers.trans (by decide +kernel), hagain, hsame, hall⟩

end NestClient.TypeText
