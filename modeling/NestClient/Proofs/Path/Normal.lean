import Mathlib.Data.List.Induction
import NestClient.Path.Lexical
import NestClient.Proofs.Path.Names

/-! Normalizing a path that has no anchor.

* `normalize_eq`: the path is written again, from its normal names.
* `normalize_eq_iff`: two paths are normalized to one text if they have the same normal names.
* `rise_normalNames`: normal names lead as far down as the names they come from, so names put in front
  do not get lost.
* `normalize_append`: an extension of the last name stays with it. -/

namespace NestClient.Path

theorem anchor_eq_here_iff {t : Text} : Anchor.ofText t = .here ↔ t.head? ≠ some '/' := by
  cases t with
  | nil => exact ⟨fun _ => by simp, fun _ => rfl⟩
  | cons c rest =>
    by_cases hc : c = '/'
    · subst hc
      refine ⟨fun h => ?_, fun h => absurd rfl h⟩
      unfold Anchor.ofText at h
      rw [List.takeWhile_cons_of_pos (by rfl), List.length_cons] at h
      split at h
      · omega
      · cases h
      · cases h
    · refine ⟨fun _ => by simpa using hc, fun _ => ?_⟩
      unfold Anchor.ofText
      rw [List.takeWhile_cons_of_neg (by simpa using hc)]
      rfl

/-! ## Normal names -/

theorem pushName_cases {name : Text} (h : IsName name) (stack : List Text) :
    pushName false stack name = name :: stack ∨
      name = ['.', '.'] ∧ ∃ top, top ≠ ['.', '.'] ∧ stack = top :: pushName false stack name := by
  have hkept : ¬(name.isEmpty || decide (name = ['.'])) = true := by
    simp [h.ne_nil, h.ne_dot]
  unfold pushName
  rw [if_neg hkept]
  split
  · exact .inl rfl
  · next hdots =>
    cases stack with
    | nil => exact .inl rfl
    | cons top below =>
      dsimp only
      split
      · exact .inl rfl
      · next htop => exact .inr ⟨Decidable.not_not.1 hdots, top, htop, rfl⟩

theorem pushName_of_ne_dots {name : Text} (h : IsName name) (hdots : name ≠ ['.', '.'])
    (stack : List Text) : pushName false stack name = name :: stack :=
  (pushName_cases h stack).resolve_right fun hname => hdots hname.1

theorem normalNames_split (rooted : Bool) (t : Text) :
    normalNames rooted (Text.split '/' t) = normalNames rooted (namesOf t) := by
  unfold normalNames namesOf
  rw [List.foldl_filter]
  congr 2
  funext stack name
  split
  · rfl
  · next hskip =>
    unfold pushName
    rw [if_pos]
    rw [Bool.and_eq_true, decide_eq_true_eq, Decidable.not_and_iff_not_or_not] at hskip
    simpa using hskip

theorem mem_foldl_pushName {names stack : List Text} (h : ∀ n ∈ names, IsName n) {n : Text}
    (hn : n ∈ names.foldl (pushName false) stack) : n ∈ stack ∨ n ∈ names := by
  induction names generalizing stack with
  | nil => exact .inl hn
  | cons name more ih =>
    rcases ih (fun m hm => h m (List.mem_cons_of_mem _ hm)) hn with hn | hn
    · rcases pushName_cases (h name List.mem_cons_self) stack with hpush | ⟨-, top, -, hpush⟩
      · rw [hpush] at hn
        exact (List.mem_cons.1 hn).elim (fun hn => .inr (hn ▸ List.mem_cons_self)) .inl
      · exact .inl (hpush ▸ List.mem_cons_of_mem _ hn)
    · exact .inr (List.mem_cons_of_mem _ hn)

theorem isName_normalNames {names : List Text} (h : ∀ n ∈ names, IsName n) :
    ∀ n ∈ normalNames false names, IsName n := by
  intro n hn
  rw [normalNames, List.mem_reverse] at hn
  exact h n ((mem_foldl_pushName h hn).resolve_left (by simp))

theorem normalNames_concat {name : Text} (h : IsName name) (hdots : name ≠ ['.', '.'])
    (names : List Text) :
    normalNames false (names ++ [name]) = normalNames false names ++ [name] := by
  rw [normalNames, List.foldl_append, List.foldl_cons, List.foldl_nil, pushName_of_ne_dots h hdots,
    List.reverse_cons, normalNames]

/-! ## How far names lead down -/

/-- How far names lead down; `..` leads up. -/
def rise : List Text → Int
  | [] => 0
  | name :: names => (if name = ['.', '.'] then -1 else 1) + rise names

theorem rise_append (names names' : List Text) : rise (names ++ names') = rise names + rise names' := by
  induction names with
  | nil => exact (Int.zero_add _).symm
  | cons name more ih => rw [List.cons_append, rise, ih, rise, Int.add_assoc]

theorem rise_reverse (names : List Text) : rise names.reverse = rise names := by
  induction names with
  | nil => rfl
  | cons name more ih =>
    rw [List.reverse_cons, rise_append, ih, rise, rise, rise, Int.add_zero, Int.add_comm]

theorem rise_of_down {names : List Text} (h : ∀ n ∈ names, n ≠ ['.', '.']) :
    rise names = names.length := by
  induction names with
  | nil => rfl
  | cons name more ih =>
    have hmore := ih fun n hn => h n (List.mem_cons_of_mem _ hn)
    rw [rise, if_neg (h name List.mem_cons_self), hmore, List.length_cons]
    omega

theorem rise_pushName {name : Text} (h : IsName name) (stack : List Text) :
    rise (pushName false stack name) = (if name = ['.', '.'] then -1 else 1) + rise stack := by
  rcases pushName_cases h stack with hpush | ⟨rfl, top, htop, hpush⟩
  · rw [hpush, rise]
  · have hstack := congrArg rise hpush
    rw [rise, if_neg htop] at hstack
    rw [if_pos rfl]
    omega

theorem rise_foldl_pushName {names : List Text} (h : ∀ n ∈ names, IsName n) (stack : List Text) :
    rise (names.foldl (pushName false) stack) = rise names + rise stack := by
  induction names generalizing stack with
  | nil => exact (Int.zero_add _).symm
  | cons name more ih =>
    rw [List.foldl_cons, ih fun n hn => h n (List.mem_cons_of_mem _ hn),
      rise_pushName (h name List.mem_cons_self), rise]
    omega

/-- Taking names away in pairs does not change how far the path leads down. -/
theorem rise_normalNames {names : List Text} (h : ∀ n ∈ names, IsName n) :
    rise (normalNames false names) = rise names := by
  rw [normalNames, rise_reverse, rise_foldl_pushName h]
  exact Int.add_zero _

/-- Names in front that lead down only cannot be normalized away. -/
theorem eq_nil_of_normalNames_append {lead names : List Text} (hlead : ∀ n ∈ lead, IsName n)
    (hdown : ∀ n ∈ lead, n ≠ ['.', '.']) (hnames : ∀ n ∈ names, IsName n)
    (h : normalNames false (lead ++ names) = normalNames false names) : lead = [] := by
  have hall : ∀ n ∈ lead ++ names, IsName n := by
    intro n hn
    exact (List.mem_append.1 hn).elim (hlead n) (hnames n)
  have hrise := congrArg rise h
  rw [rise_normalNames hall, rise_normalNames hnames, rise_append, rise_of_down hdown] at hrise
  apply List.eq_nil_of_length_eq_zero
  omega

/-! ## Normal paths -/

variable {s t : Text}

theorem normalize_eq (h : t.head? ≠ some '/') :
    normalize t = (⟨.here, normalNames false (namesOf t)⟩ : Path).text := by
  have hlead : leadingSlashes t = [] := by
    unfold leadingSlashes
    cases t with
    | nil => rfl
    | cons c rest =>
      rw [List.takeWhile_cons_of_neg (by simpa using h)]
      rfl
  have hnames := isName_normalNames fun n hn => isName_of_mem_namesOf (t := t) hn
  have hjoin := namesOf_join hnames
  unfold normalize
  dsimp only
  rw [hlead, List.isEmpty_nil, Bool.not_true, normalNames_split, List.nil_append]
  by_cases hnil : normalNames false (namesOf t) = []
  · rw [hnil]
    rfl
  · rw [if_neg, text, if_neg]
    · rfl
    · simpa using hnil
    · rw [List.isEmpty_iff]
      intro hempty
      rw [hempty] at hjoin
      exact hnil hjoin.symm

theorem normalize_eq_iff (hs : s.head? ≠ some '/') (ht : t.head? ≠ some '/') :
    normalize s = normalize t ↔
      normalNames false (namesOf s) = normalNames false (namesOf t) := by
  rw [normalize_eq hs, normalize_eq ht]
  refine ⟨fun h => ?_, fun h => by rw [h]⟩
  have hnames : ∀ t : Text, ∀ n ∈ normalNames false (namesOf t), IsName n :=
    fun t => isName_normalNames fun n hn => isName_of_mem_namesOf hn
  have hread := congrArg namesOf h
  rwa [namesOf_text (hnames s), namesOf_text (hnames t)] at hread

theorem head?_text {names : List Text} (h : ∀ n ∈ names, IsName n) :
    (⟨.here, names⟩ : Path).text.head? ≠ some '/' := by
  unfold text
  split
  · simp
  · exact head?_join h

theorem head?_normalize (h : t.head? ≠ some '/') : (normalize t).head? ≠ some '/' := by
  rw [normalize_eq h]
  exact head?_text (isName_normalNames fun n hn => isName_of_mem_namesOf hn)

theorem head?_normalize_rooted (h : t.head? = some '/') : (normalize t).head? = some '/' := by
  obtain ⟨rest, rfl⟩ : ∃ rest, t = '/' :: rest := by
    cases t with
    | nil => cases h
    | cons c rest => exact ⟨rest, by rw [Option.some.inj h]⟩
  have hlead : ∃ more, leadingSlashes ('/' :: rest) = '/' :: more := by
    unfold leadingSlashes
    rw [List.takeWhile_cons_of_pos (by rfl), List.length_cons]
    split
    · omega
    · exact ⟨['/'], rfl⟩
    · exact ⟨[], rfl⟩
  obtain ⟨more, hlead⟩ := hlead
  unfold normalize
  dsimp only
  rw [hlead, List.cons_append, List.isEmpty_cons, if_neg (by simp), List.head?_cons]

/-! ## Paths below a directory -/

theorem namesOf_under (base : Text) (h : t.head? ≠ some '/') :
    namesOf (under base t) = namesOf base ++ namesOf t := by
  unfold under
  rw [if_neg h]
  split
  next hbase =>
    rw [Bool.or_eq_true, decide_eq_true_eq] at hbase
    rcases hbase with hnil | hslash
    · rw [List.isEmpty_iff.1 hnil]
      rfl
    · obtain ⟨before, rfl⟩ := List.getLast?_eq_some_iff.1 hslash
      have hbefore := namesOf_append_cons before []
      rw [List.append_assoc, List.singleton_append, namesOf_append_cons, hbefore]
      simp [namesOf, Text.split]
  next => exact namesOf_append_cons base t

theorem head?_under {base : Text} (hbase : base.head? ≠ some '/') (h : t.head? ≠ some '/') :
    (under base t).head? ≠ some '/' := by
  unfold under
  rw [if_neg h]
  cases base with
  | nil => exact h
  | cons c rest =>
    split
    · exact hbase
    · exact hbase

theorem under_append {base : Text} (h : t ≠ []) (tail : Text) :
    under base t ++ tail = under base (t ++ tail) := by
  obtain ⟨c, rest, rfl⟩ := List.exists_cons_of_ne_nil h
  unfold under
  rw [List.cons_append, List.head?_cons, List.head?_cons]
  split
  · rfl
  · split
    · rw [List.append_assoc, List.cons_append]
    · rw [List.append_assoc, List.cons_append, List.cons_append]

/-! ## Extensions -/

/-- Of a path that is written on, the last name grows and the names before it stay. -/
theorem exists_namesOf_append (t : Text) :
    ∃ names name, '/' ∉ name ∧ ∀ tail, namesOf (t ++ tail) = names ++ namesOf (name ++ tail) := by
  induction t using List.reverseRecOn with
  | nil => exact ⟨[], [], by simp, fun tail => rfl⟩
  | append_singleton before c ih =>
    by_cases hc : c = '/'
    · refine ⟨namesOf before, [], by simp, fun tail => ?_⟩
      rw [List.append_assoc, hc]
      exact namesOf_append_cons before tail
    · obtain ⟨names, name, hname, hnames⟩ := ih
      refine ⟨names, name ++ [c], ?_, fun tail => ?_⟩
      · simpa [hname] using fun heq => hc heq.symm
      · rw [List.append_assoc, hnames, List.append_assoc]

theorem isName_of_mem {name : Text} {c : Char} (hc : c ∈ name) (hdot : c ≠ '.') (hslash : '/' ∉ name) :
    IsName name ∧ name ≠ ['.', '.'] := by
  refine ⟨⟨?_, ?_, hslash⟩, ?_⟩ <;> rintro rfl <;> simp [hdot] at hc

theorem namesOf_of_isName {name : Text} (h : IsName name) : namesOf name = [name] := by
  rw [namesOf, Text.split_of_not_mem h.slash, List.filter_eq_self]
  simp [h.ne_nil, h.ne_dot]

theorem text_concat_append (names : List Text) (name tail : Text) :
    (⟨.here, names ++ [name]⟩ : Path).text ++ tail = (⟨.here, names ++ [name ++ tail]⟩ : Path).text := by
  have htext : ∀ name : Text, (⟨.here, names ++ [name]⟩ : Path).text = Text.join ['/'] (names ++ [name]) := by
    intro name
    simp [text, Anchor.text]
  rw [htext, htext]
  by_cases hne : names = []
  · subst hne
    simp [Text.join, List.intercalate]
  · rw [Text.join_concat hne, Text.join_concat hne, List.append_assoc, List.cons_append]

/-- A path that ends in a proper name is normalized with its extension. -/
theorem normalize_append {c : Char} (hlast : t.getLast? = some c) (hslash : c ≠ '/') (hdot : c ≠ '.')
    (ht : t.head? ≠ some '/') {tail : Text} (htail : '/' ∉ tail) :
    normalize t ++ tail = normalize (t ++ tail) := by
  obtain ⟨before, rfl⟩ := List.getLast?_eq_some_iff.1 hlast
  obtain ⟨names, name, hname, hnames⟩ := exists_namesOf_append before
  have hnormal : ∀ more : Text, '/' ∉ more → normalNames false (namesOf (before ++ [c] ++ more))
      = normalNames false names ++ [name ++ [c] ++ more] := by
    intro more hmore
    have hmem : c ∈ name ++ [c] ++ more := by simp
    obtain ⟨hgood, hdots⟩ := isName_of_mem hmem hdot (by simp [hname, hmore, hslash.symm])
    rw [List.append_assoc, hnames, ← List.append_assoc, namesOf_of_isName hgood,
      normalNames_concat hgood hdots]
  have hshort := hnormal [] (by simp)
  rw [List.append_nil, List.append_nil] at hshort
  have hhead : (before ++ [c] ++ tail).head? ≠ some '/' := by
    obtain ⟨d, rest, hcons⟩ := List.exists_cons_of_ne_nil (List.append_ne_nil_of_right_ne_nil before
      (List.cons_ne_nil c []))
    rw [hcons] at ht ⊢
    exact ht
  rw [normalize_eq ht, normalize_eq hhead, hshort, hnormal tail htail, text_concat_append]

end NestClient.Path
