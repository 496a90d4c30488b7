import Mathlib.Data.List.TakeWhile
import NestClient.Proofs.Path.Normal

/-! Paths as seen from the root, where `..` cannot lead any further up.

* `fromRoot_eq`: the path from the root through the normal names.
* `normalNames_append`: what stands in front may be normalized before, with or without the root.
* `fromRoot_relative`: the way from a directory to a target leads to the target.
* `fromRoot_directory`: a path and its normal form lie in the same directory. -/

namespace NestClient.Path

variable {s t : Text}

/-- The path from the root, in normal form. -/
def fromRoot (t : Text) : Text := normalize (under ['/'] t)

/-- A name that normalizing from the root can leave. -/
structure IsDown (name : Text) : Prop extends IsName name where
  ne_dots : name ≠ ['.', '.']

theorem isName_dots : IsName ['.', '.'] := ⟨by decide, by decide, by decide⟩

/-! ## Normal names from the root -/

theorem pushName_down {name : Text} (h : IsDown name) (stack : List Text) :
    pushName true stack name = name :: stack := by
  simp [pushName, h.ne_nil, h.ne_dot, h.ne_dots]

/-- At the root, `..` leads nowhere. -/
theorem pushName_dots {stack : List Text} (h : ∀ n ∈ stack, IsDown n) :
    pushName true stack ['.', '.'] = stack.tail := by
  cases stack with
  | nil => rfl
  | cons top below =>
    have htop := (h top List.mem_cons_self).ne_dots
    simp [pushName, htop]

theorem isDown_foldl_pushName {names stack : List Text} (hnames : ∀ n ∈ names, IsName n)
    (hstack : ∀ n ∈ stack, IsDown n) : ∀ n ∈ names.foldl (pushName true) stack, IsDown n := by
  induction names generalizing stack with
  | nil => exact hstack
  | cons name more ih =>
    refine ih (fun n hn => hnames n (List.mem_cons_of_mem _ hn)) ?_
    by_cases hdots : name = ['.', '.']
    · rw [hdots, pushName_dots hstack]
      exact fun n hn => hstack n (List.mem_of_mem_tail hn)
    · have hname : IsDown name := ⟨hnames name List.mem_cons_self, hdots⟩
      rw [pushName_down hname]
      exact List.forall_mem_cons.2 ⟨hname, hstack⟩

theorem isDown_normalNames {names : List Text} (h : ∀ n ∈ names, IsName n) :
    ∀ n ∈ normalNames true names, IsDown n := by
  intro n hn
  rw [normalNames, List.mem_reverse] at hn
  exact isDown_foldl_pushName h (by simp) n hn

theorem foldl_pushName_down {names : List Text} (h : ∀ n ∈ names, IsDown n) (stack : List Text) :
    names.foldl (pushName true) stack = names.reverse ++ stack := by
  induction names generalizing stack with
  | nil => rfl
  | cons name more ih =>
    rw [List.foldl_cons, pushName_down (h name List.mem_cons_self),
      ih fun n hn => h n (List.mem_cons_of_mem _ hn)]
    simp

/-- As many `..` as there are names on top take these away. -/
theorem foldl_pushName_up {up stack : List Text} (h : ∀ n ∈ up ++ stack, IsDown n) :
    (up.map fun _ => ['.', '.']).foldl (pushName true) (up ++ stack) = stack := by
  induction up with
  | nil => rfl
  | cons name more ih =>
    rw [List.map_cons, List.foldl_cons, pushName_dots h, List.cons_append, List.tail_cons]
    exact ih fun n hn => h n (List.mem_cons_of_mem _ hn)

/-- A `..` that takes a name away takes the same one when the path is normalized again. -/
theorem foldl_pushName_normal {names : List Text} (h : ∀ n ∈ names, IsName n)
    (kept stack : List Text) (hkept : ∀ n ∈ kept, IsName n) :
    (names.foldl (pushName false) kept).reverse.foldl (pushName true) stack
      = names.foldl (pushName true) (kept.reverse.foldl (pushName true) stack) := by
  induction names generalizing kept with
  | nil => rfl
  | cons name more ih =>
    have hname := h name List.mem_cons_self
    have hmore := fun n hn => h n (List.mem_cons_of_mem _ hn)
    rw [List.foldl_cons, List.foldl_cons]
    rcases pushName_cases hname kept with hpush | ⟨rfl, top, htop, hpush⟩
    · rw [hpush, ih hmore _ (List.forall_mem_cons.2 ⟨hname, hkept⟩), List.reverse_cons, List.foldl_append]
      rfl
    · rw [hpush] at hkept
      obtain ⟨htopName, hbelow⟩ := List.forall_mem_cons.1 hkept
      have hback : ∀ below : List Text, pushName true (top :: below) ['.', '.'] = below := by
        intro below
        simp [pushName, htop]
      rw [ih hmore _ hbelow]
      conv_rhs => rw [hpush, List.reverse_cons, List.foldl_append, List.foldl_cons, List.foldl_nil,
        pushName_down ⟨htopName, htop⟩, hback]

/-- What stands in front of a path may be normalized on its own. -/
theorem normalNames_append {names : List Text} (h : ∀ n ∈ names, IsName n) (more : List Text) :
    normalNames true (normalNames false names ++ more) = normalNames true (names ++ more) := by
  have hfold := foldl_pushName_normal h [] [] (by simp)
  rw [normalNames, normalNames, normalNames, List.foldl_append, List.foldl_append, hfold]
  rfl

theorem namesOf_normalize (h : t.head? ≠ some '/') :
    namesOf (normalize t) = normalNames false (namesOf t) := by
  rw [normalize_eq h, namesOf_text (isName_normalNames fun n hn => isName_of_mem_namesOf hn)]

/-! ## Paths from the root -/

theorem under_ne_nil (base : Text) (h : t ≠ []) : under base t ≠ [] := by
  unfold under
  split
  · exact h
  · split <;> simp [h]

theorem under_root (h : t.head? ≠ some '/') : under ['/'] t = '/' :: t := by
  rw [under, if_neg h]
  rfl

theorem fromRoot_eq (h : t.head? ≠ some '/') :
    fromRoot t = '/' :: Text.join ['/'] (normalNames true (namesOf t)) := by
  have hlead : leadingSlashes ('/' :: t) = ['/'] := by
    unfold leadingSlashes
    rw [List.takeWhile_cons_of_pos (by rfl)]
    cases t with
    | nil => rfl
    | cons c rest =>
      rw [List.takeWhile_cons_of_neg (by simpa using h)]
      rfl
  rw [fromRoot, under_root h, normalize, hlead, normalNames_split, namesOf_cons_slash]
  rfl

theorem namesFromRoot_eq (h : t.head? ≠ some '/') :
    namesFromRoot t = normalNames true (namesOf t) := by
  have hdown := isDown_normalNames fun n hn => isName_of_mem_namesOf (t := t) hn
  have hpath : normalize (under ['/'] t) = '/' :: Text.join ['/'] (normalNames true (namesOf t)) :=
    fromRoot_eq h
  rw [namesFromRoot, hpath]
  generalize normalNames true (namesOf t) = names at hdown
  by_cases hne : names = []
  · rw [hne]
    rfl
  · rw [Text.split, if_pos rfl, Text.split_join hne fun n hn => (hdown n hn).slash,
      List.filter_cons_of_neg (by simp), List.filter_eq_self]
    intro n hn
    simp [(hdown n hn).ne_nil]

/-! ## The way from one directory to another place -/

theorem exists_dropCommon (front back : List Text) : ∃ common,
    front = common ++ (dropCommon front back).1 ∧ back = common ++ (dropCommon front back).2 := by
  induction front generalizing back with
  | nil => exact ⟨[], rfl, rfl⟩
  | cons a front ih =>
    cases back with
    | nil => exact ⟨[], rfl, rfl⟩
    | cons b back =>
      rw [dropCommon]
      split
      next hab =>
        obtain ⟨common, hfront, hback⟩ := ih back
        exact ⟨a :: common, congrArg (a :: ·) hfront, by rw [← hab]; exact congrArg (a :: ·) hback⟩
      next => exact ⟨[], rfl, rfl⟩

/-- Up from the start to what is common, then down to the target. -/
theorem normalNames_way {start up common down : List Text} (hstart : ∀ n ∈ start, IsName n)
    (hup : normalNames true start = common ++ up) (hdown : ∀ n ∈ common ++ down, IsDown n) :
    normalNames true (start ++ (up.map (fun _ => ['.', '.']) ++ down)) = common ++ down := by
  have hall := isDown_normalNames hstart
  rw [hup] at hall
  have hstack : start.foldl (pushName true) [] = up.reverse ++ common.reverse := by
    rw [← List.reverse_reverse (start.foldl (pushName true) []), ← List.reverse_append]
    exact congrArg List.reverse hup
  have hdots : (up.map fun _ : Text => ['.', '.']) = up.reverse.map fun _ => ['.', '.'] := by
    simp [List.map_const']
  have hleft : ∀ n ∈ up.reverse ++ common.reverse, IsDown n := by
    intro n hn
    refine hall n ?_
    rw [← List.reverse_append, List.mem_reverse] at hn
    exact hn
  rw [normalNames, List.foldl_append, List.foldl_append, hstack, hdots, foldl_pushName_up hleft,
    foldl_pushName_down fun n hn => hdown n (List.mem_append_right _ hn), ← List.reverse_append,
    List.reverse_reverse]

/-- The way from a directory to a target leads from there to the target. -/
theorem exists_relative? {start target : Text} (hstart : start.head? ≠ some '/')
    (htarget : target.head? ≠ some '/') (hne : target ≠ []) :
    ∃ way, relative? target start = some way ∧ way.head? ≠ some '/' ∧
      normalNames true (namesOf start ++ namesOf way) = normalNames true (namesOf target) := by
  have hnames : ∀ t : Text, ∀ n ∈ namesOf t, IsName n := fun t n hn => isName_of_mem_namesOf hn
  obtain ⟨common, hup, hback⟩ :=
    exists_dropCommon (normalNames true (namesOf start)) (normalNames true (namesOf target))
  unfold relative?
  rw [if_neg (by simpa using hne), namesFromRoot_eq hstart, namesFromRoot_eq htarget]
  generalize dropCommon (normalNames true (namesOf start)) (normalNames true (namesOf target)) = both
    at hup hback
  obtain ⟨up, down⟩ := both
  have hdown : ∀ n ∈ common ++ down, IsDown n := hback ▸ isDown_normalNames (hnames target)
  have hway : normalNames true (namesOf start ++ (up.map (fun _ => ['.', '.']) ++ down))
      = normalNames true (namesOf target) := by
    rw [hback]
    exact normalNames_way (hnames start) hup hdown
  have hsteps : ∀ n ∈ up.map (fun _ => ['.', '.']) ++ down, IsName n := by
    intro n hn
    rcases List.mem_append.1 hn with hn | hn
    · obtain ⟨-, -, rfl⟩ := List.mem_map.1 hn
      exact isName_dots
    · exact (hdown n (List.mem_append_right _ hn)).toIsName
  dsimp only
  generalize up.map (fun _ => ['.', '.']) ++ down = steps at hway hsteps
  by_cases hnil : steps = []
  · subst hnil
    exact ⟨_, rfl, by decide, hway⟩
  · refine ⟨_, rfl, ?_, ?_⟩
    · rw [if_neg (by simpa using hnil)]
      exact head?_join hsteps
    · rw [if_neg (by simpa using hnil), namesOf_join hsteps, hway]

/-! ## Directories -/

theorem directory_append {last : Text} (h : '/' ∉ last) (t : Text) :
    directory (t ++ '/' :: last) = if t.all (· = '/') then t ++ ['/'] else Text.trimEndBy (· = '/') t := by
  have hlast : ∀ c ∈ last.reverse, decide (c ≠ '/') = true := by
    intro c hc
    have hne : c ≠ '/' := fun heq => h (heq ▸ List.mem_reverse.1 hc)
    simpa using hne
  have hhead : ((t ++ '/' :: last).reverse.dropWhile (· ≠ '/')).reverse = t ++ ['/'] := by
    rw [List.reverse_append, List.reverse_cons, List.append_assoc,
      List.dropWhile_append_of_pos hlast, List.singleton_append, List.dropWhile_cons_of_neg (by simp)]
    simp
  have hend : Text.trimEndBy (· = '/') (t ++ ['/']) = Text.trimEndBy (· = '/') t := by
    simp [Text.trimEndBy]
  rw [directory, hhead, List.all_append, hend]
  simp

theorem directory_of_not_mem (h : '/' ∉ t) : directory t = [] := by
  have hhead : t.reverse.dropWhile (· ≠ '/') = [] := by
    rw [List.dropWhile_eq_nil_iff]
    intro c hc
    have hne : c ≠ '/' := fun heq => h (heq ▸ List.mem_reverse.1 hc)
    simpa using hne
  rw [directory, hhead]
  rfl

theorem exists_last_slash (h : '/' ∈ t) : ∃ before last, t = before ++ '/' :: last ∧ '/' ∉ last := by
  obtain ⟨front, back, hsplit, hfront⟩ := List.eq_append_cons_of_mem (List.mem_reverse.2 h)
  refine ⟨back.reverse, front.reverse, ?_, by simpa using hfront⟩
  have hback := congrArg List.reverse hsplit
  simpa using hback

theorem namesOf_concat_slash (t : Text) : namesOf (t ++ ['/']) = namesOf t := by
  have hslash := namesOf_append_cons t []
  simpa [namesOf, Text.split] using hslash

theorem namesOf_trimEndBy (t : Text) : namesOf (Text.trimEndBy (· = '/') t) = namesOf t := by
  induction t using List.reverseRecOn with
  | nil => rfl
  | append_singleton before c ih =>
    by_cases hc : c = '/'
    · have hend : Text.trimEndBy (· = '/') (before ++ [c]) = Text.trimEndBy (· = '/') before := by
        simp [Text.trimEndBy, hc]
      rw [hend, ih, hc, namesOf_concat_slash]
    · have hend : Text.trimEndBy (· = '/') (before ++ [c]) = before ++ [c] := by
        simp [Text.trimEndBy, hc]
      rw [hend]

theorem namesOf_directory {last : Text} (h : '/' ∉ last) (t : Text) :
    namesOf (directory (t ++ '/' :: last)) = namesOf t := by
  rw [directory_append h]
  split
  · exact namesOf_concat_slash t
  · exact namesOf_trimEndBy t

theorem namesOf_directory_under (base : Text) (h : t.head? ≠ some '/') :
    namesOf (directory (under base t)) = namesOf base ++ namesOf (directory t) := by
  by_cases hslash : '/' ∈ t
  · obtain ⟨before, last, rfl, hlast⟩ := exists_last_slash hslash
    obtain ⟨c, rest, rfl⟩ : ∃ c rest, before = c :: rest := by
      cases before with
      | nil => exact absurd rfl h
      | cons c rest => exact ⟨c, rest, rfl⟩
    have hbefore : (c :: rest).head? ≠ some '/' := h
    rw [← under_append (List.cons_ne_nil c rest), namesOf_directory hlast, namesOf_directory hlast,
      namesOf_under base hbefore]
  · rw [directory_of_not_mem hslash]
    have hnil : namesOf [] = [] := rfl
    rw [hnil, List.append_nil, under, if_neg h]
    split
    next hbase =>
      rw [Bool.or_eq_true, decide_eq_true_eq] at hbase
      rcases hbase with hempty | hlast
      · rw [List.isEmpty_iff.1 hempty, List.nil_append, directory_of_not_mem hslash]
      · obtain ⟨before, rfl⟩ := List.getLast?_eq_some_iff.1 hlast
        rw [List.append_assoc, List.singleton_append, namesOf_directory hslash, namesOf_concat_slash]
    next => exact namesOf_directory hslash base

/-! ## The directory of a path -/

/-- In normal names, only `..` stands before `..`; the stack has the last name on top. -/
abbrev RisesFirst (stack : List Text) : Prop := stack.Pairwise fun a b => a = ['.', '.'] → b = ['.', '.']

theorem risesFirst_pushName {name : Text} (h : IsName name) {stack : List Text}
    (hstack : RisesFirst stack) : RisesFirst (pushName false stack name) := by
  rcases pushName_cases h stack with hpush | ⟨-, top, -, hpush⟩
  · rw [hpush]
    refine List.pairwise_cons.2 ⟨fun b hb hname => ?_, hstack⟩
    subst hname
    cases stack with
    | nil => simp at hb
    | cons top below =>
      by_cases htop : top = ['.', '.']
      · rcases List.mem_cons.1 hb with rfl | hb
        · exact htop
        · exact List.rel_of_pairwise_cons hstack hb htop
      · have hback : pushName false (top :: below) ['.', '.'] = below := by simp [pushName, htop]
        have hlength := congrArg List.length (hback.symm.trans hpush)
        simp only [List.length_cons] at hlength
        omega
  · rw [hpush] at hstack
    exact (List.pairwise_cons.1 hstack).2

theorem risesFirst_foldl_pushName {names stack : List Text} (h : ∀ n ∈ names, IsName n)
    (hstack : RisesFirst stack) : RisesFirst (names.foldl (pushName false) stack) := by
  induction names generalizing stack with
  | nil => exact hstack
  | cons name more ih =>
    exact ih (fun n hn => h n (List.mem_cons_of_mem _ hn))
      (risesFirst_pushName (h name List.mem_cons_self) hstack)

theorem normalNames_dots {names : List Text} (h : ∀ n ∈ names, n = ['.', '.']) :
    normalNames true names = [] := by
  induction names with
  | nil => rfl
  | cons name more ih =>
    rw [h name List.mem_cons_self]
    exact ih fun n hn => h n (List.mem_cons_of_mem _ hn)

/-- Leaving the last name out before or after the path is placed at the root is the same. -/
theorem normalNames_dropLast {names : List Text} (h : ∀ n ∈ names, IsName n) :
    normalNames true (normalNames false names).dropLast = (normalNames true names).dropLast := by
  have hagain := normalNames_append h []
  rw [List.append_nil, List.append_nil] at hagain
  have hrises : RisesFirst (names.foldl (pushName false) []) := risesFirst_foldl_pushName h .nil
  have hname := isName_normalNames h
  rw [← hagain]
  unfold normalNames at hname ⊢
  generalize names.foldl (pushName false) [] = stack at hrises hname
  cases stack with
  | nil => rfl
  | cons name below =>
    rw [List.reverse_cons, List.dropLast_concat, List.foldl_append, List.foldl_cons, List.foldl_nil]
    by_cases hdots : name = ['.', '.']
    · have hbelow : ∀ n ∈ below, n = ['.', '.'] := fun n hn =>
        List.rel_of_pairwise_cons hrises hn hdots
      have hnone : normalNames true below.reverse = [] := normalNames_dots (by simpa using hbelow)
      rw [normalNames, List.reverse_eq_nil_iff] at hnone
      rw [hnone, hdots]
      rfl
    · rw [pushName_down ⟨hname name (by simp), hdots⟩, List.reverse_cons, List.dropLast_concat]

theorem directory_root {names : List Text} (h : ∀ n ∈ names, IsName n) :
    directory ('/' :: Text.join ['/'] names) = '/' :: Text.join ['/'] names.dropLast := by
  rcases List.eq_nil_or_concat names with rfl | ⟨before, last, rfl⟩
  · rfl
  rw [List.concat_eq_append] at h ⊢
  have hlast := (h last (by simp)).slash
  rw [List.dropLast_concat]
  rcases List.eq_nil_or_concat before with rfl | ⟨first, middle, rfl⟩
  · rw [List.nil_append, Text.join_singleton]
    exact directory_append hlast []
  · rw [List.concat_eq_append] at h ⊢
    have hmiddle := h middle (by simp)
    obtain ⟨c, hc⟩ := Option.ne_none_iff_exists'.1 (mt List.getLast?_eq_none_iff.1 hmiddle.ne_nil)
    have hslash : c ≠ '/' := fun heq => hmiddle.slash (heq ▸ List.mem_of_getLast? hc)
    obtain ⟨front, hfront⟩ := List.getLast?_eq_some_iff.1
      ((Text.getLast?_join_concat hmiddle.ne_nil ['/'] first).trans hc)
    rw [Text.join_concat (by simp), hfront, ← List.cons_append, directory_append hlast]
    simp [Text.trimEndBy, hslash]

theorem namesOf_directory_normalize (h : t.head? ≠ some '/') :
    namesOf (directory (normalize t)) = (normalNames false (namesOf t)).dropLast := by
  have hnames := isName_normalNames fun n hn => isName_of_mem_namesOf (t := t) hn
  rw [normalize_eq h]
  generalize normalNames false (namesOf t) = names at hnames
  rcases List.eq_nil_or_concat names with rfl | ⟨before, last, rfl⟩
  · rfl
  rw [List.concat_eq_append] at hnames ⊢
  have hlast := (hnames last (by simp)).slash
  have htext : (⟨.here, before ++ [last]⟩ : Path).text = Text.join ['/'] (before ++ [last]) := by
    simp [text, Anchor.text]
  rw [htext, List.dropLast_concat]
  by_cases hbefore : before = []
  · rw [hbefore, List.nil_append, Text.join_singleton, directory_of_not_mem hlast]
    rfl
  · rw [Text.join_concat hbefore, namesOf_directory hlast,
      namesOf_join fun n hn => hnames n (List.mem_append_left _ hn)]

theorem head?_directory (h : t.head? ≠ some '/') : (directory t).head? ≠ some '/' := by
  by_cases hslash : '/' ∈ t
  · obtain ⟨before, last, rfl, hlast⟩ := exists_last_slash hslash
    obtain ⟨c, rest, rfl⟩ : ∃ c rest, before = c :: rest := by
      cases before with
      | nil => exact absurd rfl h
      | cons c rest => exact ⟨c, rest, rfl⟩
    have hc : c ≠ '/' := by simpa using h
    rw [directory_append hlast, if_neg (by simp [hc])]
    have hprefix : Text.trimEndBy (· = '/') (c :: rest) <+: c :: rest := by
      have hsuffix := List.dropWhile_suffix (l := (c :: rest).reverse) (· = '/')
      rwa [← List.reverse_prefix, List.reverse_reverse] at hsuffix
    cases htrim : Text.trimEndBy (· = '/') (c :: rest) with
    | nil => simp
    | cons d more =>
      rw [htrim, List.cons_prefix_cons] at hprefix
      rw [List.head?_cons, hprefix.1]
      simpa using hc
  · rw [directory_of_not_mem hslash]
    simp

/-- The directory of a path's shortest form is the one that the path leads to from the root. -/
theorem fromRoot_directory (h : t.head? ≠ some '/') :
    fromRoot (directory (normalize t)) = directory (fromRoot t) := by
  have hnames : ∀ n ∈ namesOf t, IsName n := fun n hn => isName_of_mem_namesOf hn
  rw [fromRoot_eq (head?_directory (head?_normalize h)), namesOf_directory_normalize h,
    normalNames_dropLast hnames, fromRoot_eq h,
    directory_root fun n hn => (isDown_normalNames hnames n hn).toIsName]

end NestClient.Path
