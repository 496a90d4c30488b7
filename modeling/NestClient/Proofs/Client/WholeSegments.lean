import Mathlib.Data.List.Nodup
import NestClient.Proofs.Client.Url
import NestClient.Proofs.Path.Names
import NestClient.Proofs.Text.Trim

/-! Which segments of a route the URL of a request has parameters in place of.

* `InterpolatesSegments`: every segment of the route is in the URL as it stands, escaped, or it is a
  placeholder and a parameter stands for it.
* `KeysEndSegments`: where a key is read at the start of a segment, the segment is a placeholder.
* `WrittenAs`: the route from one place on, as it is written with the names of parameters in it.
* `code_of_keyEndsSegment`, `keyEndsSegment_of_code`: one segment, in both directions.
* `urlExpression_segments`: the URL interpolates segments if, and with names of their own for the parameters
  only if, keys end segments. -/

namespace NestClient.Client

open TypeScript (isIdentifier)

/-! ## Segments and keys -/

/-- A segment is the placeholder of a parameter: a colon and its key. -/
def IsPlaceholder (p : Parameter) (s : Text) : Prop := ∃ key ∈ p.key, s = ':' :: key

/-- What the URL has for a segment: the segment, escaped, or the name of a path parameter whose placeholder
it is. -/
def SegmentCode (e : Endpoint) (s out : Text) : Prop :=
  out = escapeTemplate s ∨
    ∃ p ∈ e.parameters, p.role = .path ∧ IsPlaceholder p s ∧ out = interpolation p.name

/-- In a URL parameters stand for whole segments only, and every other segment is plain text. -/
def InterpolatesSegments (e : Endpoint) : Prop :=
  ∃ outs, List.Forall₂ (SegmentCode e) (Text.split '/' e.route) outs ∧
    urlExpression e = "\x60$\x7bthis.BASE_URL\x7d".toList
      ++ (if e.route = [] then [] else '/' :: Text.join ['/'] outs) ++ ['\x60']

/-- A key is read at the start of a text: it stands there behind a colon, and a placeholder may end behind
it. -/
def readsKey (key t : Text) : Bool :=
  (Text.dropLead? (':' :: key) t).any fun after => endsPlaceholder after.head?

/-- Where a key is read at the start of a segment, with the escaped text `t` from there on, the segment is a
placeholder, as long as that of the key or longer, and escaping leaves it as it is. -/
def KeyEndsSegment (e : Endpoint) (s t : Text) : Prop :=
  ∀ p ∈ e.parameters, p.role = .path → ∀ key ∈ p.key, key ≠ [] → readsKey key t = true →
    escapeTemplate s = s ∧ key.length < s.length ∧
      ∃ q ∈ e.parameters, q.role = .path ∧ IsPlaceholder q s

/-- Wherever a key is read at the start of one of the segments, the segment is a placeholder. -/
def KeysEndSegments (e : Endpoint) (segments : List Text) : Prop :=
  ∀ tail ∈ segments.tails, ∀ s ∈ tail.head?,
    KeyEndsSegment e s (escapeTemplate (Text.join ['/'] tail))

instance (p : Parameter) (s : Text) : Decidable (IsPlaceholder p s) := by
  unfold IsPlaceholder; infer_instance

instance (e : Endpoint) (s t : Text) : Decidable (KeyEndsSegment e s t) :=
  decidable_of_iff (∀ p ∈ e.withRole .path, ∀ key ∈ p.key, key ≠ [] → readsKey key t = true →
      escapeTemplate s = s ∧ key.length < s.length ∧ ∃ q ∈ e.withRole .path, IsPlaceholder q s) (by
    simp only [KeyEndsSegment, Endpoint.mem_withRole, and_imp, and_assoc])

instance (e : Endpoint) (segments : List Text) : Decidable (KeysEndSegments e segments) := by
  unfold KeysEndSegments; infer_instance

variable {e : Endpoint} {table : List (Text × Text)} {s t u out after key name : Text}

theorem readsKey_iff :
    readsKey key t = true ↔ ∃ after, t = ':' :: (key ++ after) ∧ endsPlaceholder after.head? = true := by
  simp [readsKey, Option.any_eq_true, Text.dropLead?_eq_some_iff]

theorem takeWhile_ne_append {sep : Char} (hs : sep ∉ s) (hafter : ∀ c, after.head? = some c → c = sep) :
    (s ++ after).takeWhile (· ≠ sep) = s :=
  takeWhile_append_stop (fun _ hc => decide_eq_true (ne_of_mem_of_not_mem hc hs))
    fun c hc => decide_eq_false (not_not_intro (hafter c hc))

theorem cut_unique {sep : Char} {after' : Text} (hs : sep ∉ s) (hu : sep ∉ u)
    (hafter : ∀ c, after.head? = some c → c = sep) (hafter' : ∀ c, after'.head? = some c → c = sep)
    (h : s ++ after = u ++ after') : s = u ∧ after = after' := by
  have hsu : s = u := by
    rw [← takeWhile_ne_append hs hafter, h, takeWhile_ne_append hu hafter']
  subst hsu
  exact ⟨rfl, List.append_cancel_left h⟩

theorem endsSegment_nil : EndsSegment [] := by
  intro c hc
  simp at hc

theorem endsSegment_slash (t : Text) : EndsSegment ('/' :: t) := by
  intro c hc
  simpa using hc.symm

/-! ## Escaping by segments -/

theorem escapeTemplate_append (hafter : EndsSegment after) (s : Text) :
    escapeTemplate (s ++ after) = escapeTemplate s ++ escapeTemplate after := by
  induction s with
  | nil => rfl
  | cons c rest ih =>
    have hbrace : (rest ++ after).head? = some '{' ↔ rest.head? = some '{' := by
      cases rest with
      | cons d rest => rfl
      | nil =>
        refine iff_of_false (fun h => ?_) (by simp)
        exact absurd (hafter '{' h) (by decide)
    simp only [List.cons_append, escapeTemplate, hbrace, ih]
    split <;> rfl

theorem slash_not_mem_escapeTemplate (h : '/' ∉ s) : '/' ∉ escapeTemplate s := by
  induction s with
  | nil => exact h
  | cons c rest ih =>
    rw [List.mem_cons, not_or] at h
    rw [escapeTemplate]
    split <;> simp [h.1, ih h.2]

theorem escapeTemplate_eq_nil_iff : escapeTemplate t = [] ↔ t = [] := by
  cases t with
  | nil => exact Iff.rfl
  | cons c rest =>
    rw [escapeTemplate]
    split <;> simp

theorem escapeTemplate_slash (t : Text) : escapeTemplate ('/' :: t) = '/' :: escapeTemplate t :=
  escapeTemplate_cons_self (by decide) (by decide) (by simp)

/-! ## Reading a key -/

/-- What an entry of the table reads at the start of a text. -/
def entryAt? (t : Text) (entry : Text × Text) : Option (Text × Text × Text) :=
  (Text.dropLead? (':' :: entry.1) t).bind fun after =>
    if endsPlaceholder after.head? then some (entry.1, entry.2, after) else none

theorem entryAt?_eq_none_iff {entry : Text × Text} :
    entryAt? t entry = none ↔ readsKey entry.1 t = false := by
  unfold entryAt? readsKey
  cases Text.dropLead? (':' :: entry.1) t with
  | none => simp
  | some after => cases hend : endsPlaceholder after.head? <;> simp [hend]

theorem fst_of_entryAt? {entry : Text × Text} (h : entryAt? t entry = some (key, name, after)) :
    entry.1 = key := by
  obtain ⟨rest, -, hrest⟩ := Option.bind_eq_some_iff.1 h
  split_ifs at hrest
  exact congrArg Prod.fst (Option.some.inj hrest)

theorem placeholder?_eq_findSome? : placeholder? table t = table.findSome? (entryAt? t) := by
  unfold placeholder?
  split
  next rest =>
    refine congrArg (List.findSome? · table) (funext fun entry => ?_)
    obtain ⟨key, name⟩ := entry
    have hlead : Text.dropLead? (':' :: key) (':' :: rest) = Text.dropLead? key rest := rfl
    dsimp only [entryAt?]
    rw [hlead]
    cases Text.dropLead? key rest <;> rfl
  next hcolon =>
    refine (List.findSome?_eq_none_iff.2 fun entry _ => ?_).symm
    rw [entryAt?_eq_none_iff, ← Bool.not_eq_true, readsKey_iff]
    rintro ⟨after, rfl, -⟩
    exact hcolon _ rfl

/-- The key that is replaced is read, and it is the longest that is. -/
theorem readsKey_of_placeholder? (h : placeholder? (longestFirst table) t = some (key, name, after)) :
    readsKey key t = true ∧ ∀ entry ∈ table, readsKey entry.1 t = true → entry.1.length ≤ key.length := by
  rw [placeholder?_eq_findSome?] at h
  obtain ⟨before, found, later, hsplit, hfound, hbefore⟩ := List.findSome?_eq_some_iff.1 h
  have hkey := fst_of_entryAt? hfound
  subst hkey
  refine ⟨?_, fun entry hentry hreads => ?_⟩
  · rw [← Bool.not_eq_false, ← entryAt?_eq_none_iff, hfound]
    exact Option.some_ne_none _
  · have hsorted := pairwise_longestFirst table
    rw [hsplit, List.pairwise_append, List.pairwise_cons] at hsorted
    have hplace : entry ∈ before ++ found :: later := hsplit ▸ Text.mem_sortBy.2 hentry
    rcases List.mem_append.1 hplace with hearly | hlate
    · have hnone := entryAt?_eq_none_iff.1 (hbefore entry hearly)
      rw [hreads] at hnone
      cases hnone
    · rcases List.mem_cons.1 hlate with rfl | hlate
      · exact Nat.le_refl _
      · exact hsorted.2.1.1 entry hlate

theorem exists_mem_pathNames {p : Parameter} (hp : p ∈ e.parameters) (hrole : p.role = .path)
    (hkey : key ∈ p.key) (hne : key ≠ []) : ∃ name, (key, name) ∈ pathNames e := by
  obtain ⟨last, hlast⟩ : ∃ last, lastKeyed? (e.withRole .path) key = some last := by
    rw [← Option.isSome_iff_exists, lastKeyed?, List.find?_isSome]
    exact ⟨p, List.mem_reverse.2 (Endpoint.mem_withRole.2 ⟨hp, hrole⟩), decide_eq_true hkey⟩
  exact ⟨last.name, mem_pathNames.2 ⟨hne, last, hlast, rfl⟩⟩

/-- What is replaced in the URL of an endpoint: the longest key of a path parameter that is read, by the name
of the last parameter with this key. -/
structure Replaced (e : Endpoint) (t key name after : Text) : Prop where
  text : t = ':' :: (key ++ after)
  ne_nil : key ≠ []
  reads : readsKey key t = true
  last : ∃ p, lastKeyed? (e.parameters.filter (·.role = .path)) key = some p ∧ p.name = name
  longest : ∀ p ∈ e.parameters, p.role = .path → ∀ other ∈ p.key, readsKey other t = true →
    other.length ≤ key.length

theorem Replaced.parameter (h : Replaced e t key name after) :
    ∃ p ∈ e.parameters, p.role = .path ∧ key ∈ p.key ∧ p.name = name := by
  obtain ⟨p, hlast, hname⟩ := h.last
  obtain ⟨hp, hkey⟩ := mem_of_lastKeyed? hlast
  obtain ⟨hp, hrole⟩ := List.mem_filter.1 hp
  exact ⟨p, hp, of_decide_eq_true hrole, hkey, hname⟩

theorem Replaced.unique {key' name' after' : Text} (h : Replaced e t key name after)
    (h' : Replaced e t key' name' after') : key = key' ∧ name = name' ∧ after = after' := by
  obtain ⟨p, hp, hrole, hkey, -⟩ := h.parameter
  obtain ⟨p', hp', hrole', hkey', -⟩ := h'.parameter
  have hlength : key.length = key'.length :=
    Nat.le_antisymm (h'.longest p hp hrole key hkey h.reads) (h.longest p' hp' hrole' key' hkey' h'.reads)
  obtain ⟨rfl, rfl⟩ := List.append_inj (List.cons.inj (h.text.symm.trans h'.text)).2 hlength
  obtain ⟨last, hlast, rfl⟩ := h.last
  obtain ⟨last', hlast', rfl⟩ := h'.last
  obtain rfl := Option.some.inj (hlast.symm.trans hlast')
  exact ⟨rfl, rfl, rfl⟩

theorem replaced_of_placeholder?
    (h : placeholder? (longestFirst (pathNames e)) t = some (key, name, after)) :
    Replaced e t key name after := by
  obtain ⟨hentry, htext⟩ := placeholder?_eq_some h
  obtain ⟨hne, p, hlast, hname⟩ := mem_pathNames.1 (Text.mem_sortBy.1 hentry)
  obtain ⟨hreads, hlongest⟩ := readsKey_of_placeholder? h
  refine ⟨htext, hne, hreads, ⟨p, hlast, hname⟩, fun q hq hpath other hother hread => ?_⟩
  by_cases hnil : other = []
  · rw [hnil]
    exact Nat.zero_le _
  · obtain ⟨name', hmem⟩ := exists_mem_pathNames hq hpath hother hnil
    exact hlongest _ hmem hread

/-- No key of a path parameter is read at the start of the text. -/
def ReadsNoKey (e : Endpoint) (t : Text) : Prop :=
  ∀ p ∈ e.parameters, p.role = .path → ∀ key ∈ p.key, key ≠ [] → readsKey key t = false

theorem readsNoKey_of_placeholder? (h : placeholder? (longestFirst (pathNames e)) t = none) :
    ReadsNoKey e t := by
  intro p hp hrole key hkey hne
  obtain ⟨name, hmem⟩ := exists_mem_pathNames hp hrole hkey hne
  rw [placeholder?_eq_findSome?, List.findSome?_eq_none_iff] at h
  exact entryAt?_eq_none_iff.1 (h _ (Text.mem_sortBy.2 hmem))

theorem keyEndsSegment_of_placeholder? (h : placeholder? (longestFirst (pathNames e)) t = none) (s : Text) :
    KeyEndsSegment e s t := by
  intro p hp hrole key hkey hne hreads
  rw [readsNoKey_of_placeholder? h p hp hrole key hkey hne] at hreads
  cases hreads

theorem placeholder?_eq_some_iff : placeholder? (longestFirst (pathNames e)) t = some (key, name, after) ↔
    Replaced e t key name after := by
  refine ⟨replaced_of_placeholder?, fun h => ?_⟩
  cases hfound : placeholder? (longestFirst (pathNames e)) t with
  | none =>
    obtain ⟨p, hp, hrole, hkey, -⟩ := h.parameter
    have hreads := h.reads
    rw [readsNoKey_of_placeholder? hfound p hp hrole key hkey h.ne_nil] at hreads
    cases hreads
  | some found =>
    obtain ⟨rfl, rfl, rfl⟩ := h.unique (replaced_of_placeholder? hfound)
    rfl

theorem placeholder?_eq_none_iff :
    placeholder? (longestFirst (pathNames e)) t = none ↔ ReadsNoKey e t := by
  refine ⟨readsNoKey_of_placeholder?, fun h => Option.eq_none_iff_forall_ne_some.2 fun found hfound => ?_⟩
  have hreplaced := placeholder?_eq_some_iff.1 hfound
  obtain ⟨p, hp, hrole, hkey, -⟩ := hreplaced.parameter
  have hreads := hreplaced.reads
  rw [h p hp hrole _ hkey hreplaced.ne_nil] at hreads
  cases hreads

/-! ## The interpolated text -/

theorem interpolateUpTo_bound {m n : ℕ} {atStart : Bool} (hm : t.length ≤ m) (hn : t.length ≤ n) :
    interpolateUpTo table m atStart t = interpolateUpTo table n atStart t := by
  induction m generalizing n atStart t with
  | zero =>
    rw [List.length_eq_zero_iff.1 (Nat.le_zero.1 hm)]
    cases n <;> rfl
  | succ m ih =>
    cases t with
    | nil => cases n <;> rfl
    | cons c rest =>
      rw [List.length_cons] at hm hn
      obtain ⟨n, rfl⟩ : ∃ k, n = k + 1 := ⟨n - 1, by omega⟩
      rw [interpolateUpTo, interpolateUpTo]
      split
      next key name after hfound =>
        split_ifs at hfound
        have hlen := congrArg List.length (placeholder?_eq_some hfound).2
        rw [List.length_cons, List.length_cons, List.length_append] at hlen
        rw [ih (n := n) (by omega) (by omega)]
      · rw [ih (n := n) (by omega) (by omega)]

/-- A text with names for placeholders, from the start or from the middle of a segment on. -/
def shown (table : List (Text × Text)) (atStart : Bool) (t : Text) : Text :=
  interpolateUpTo table t.length atStart t

theorem shown_of_some (h : placeholder? table t = some (key, name, after)) :
    shown table true t = interpolation name ++ shown table (key.getLast? = some '/') after := by
  obtain ⟨-, rfl⟩ := placeholder?_eq_some h
  rw [shown, List.length_cons, interpolateUpTo, if_pos rfl, h]
  exact congrArg (interpolation name ++ ·) (interpolateUpTo_bound (by simp) (Nat.le_refl _))

theorem shown_of_none (h : placeholder? table t = none) : shown table true t = shown table false t := by
  cases t with
  | nil => rfl
  | cons c rest =>
    rw [shown, shown, List.length_cons, interpolateUpTo, interpolateUpTo, if_pos rfl, h]
    rfl

theorem shown_slash (t : Text) : shown table false ('/' :: t) = '/' :: shown table true t := rfl

/-- In the middle of a segment nothing is read. -/
theorem shown_append (hs : '/' ∉ s) (after : Text) :
    shown table false (s ++ after) = s ++ shown table false after := by
  induction s with
  | nil => rfl
  | cons c rest ih =>
    rw [List.mem_cons, not_or] at hs
    have hc : decide (c = '/') = false := decide_eq_false (Ne.symm hs.1)
    have hstep : shown table false (c :: (rest ++ after)) = c :: shown table (c = '/') (rest ++ after) := rfl
    rw [List.cons_append, hstep, hc, ih hs.2, List.cons_append]

theorem endsSegment_shown_iff : EndsSegment (shown table false after) ↔ EndsSegment after := by
  unfold EndsSegment
  rw [shown, head?_interpolateUpTo]

theorem shown_eq_nil_iff {atStart : Bool} : shown table atStart t = [] ↔ t = [] := by
  cases t with
  | nil => exact Iff.rfl
  | cons c rest =>
    rw [shown, List.length_cons, interpolateUpTo]
    split <;> simp [interpolation]

/-! ## The route as it is written -/

/-- The escaped route, from some place on, as it is written into the literal: where a key is read at the
start of a segment the name of its parameter, and everything else as it is. -/
inductive WrittenAs (e : Endpoint) : Bool → Text → Text → Prop
  | nil {atStart : Bool} : WrittenAs e atStart [] []
  | name {t key name after out : Text} (replaced : Replaced e t key name after)
      (later : WrittenAs e (key.getLast? = some '/') after out) :
      WrittenAs e true t (interpolation name ++ out)
  | char {atStart : Bool} {c : Char} {rest out : Text} (none : atStart = true → ReadsNoKey e (c :: rest))
      (later : WrittenAs e (c = '/') rest out) : WrittenAs e atStart (c :: rest) (c :: out)

theorem writtenAs_shown (e : Endpoint) (atStart : Bool) (t : Text) :
    WrittenAs e atStart t (shown (longestFirst (pathNames e)) atStart t) := by
  induction hn : t.length using Nat.strongRecOn generalizing t atStart with
  | ind n ih =>
    subst hn
    cases t with
    | nil => exact .nil
    | cons c rest =>
      have hlater := ih rest.length (Nat.lt_succ_self _) (c = '/') rest rfl
      cases atStart with
      | false => exact .char (fun h => nomatch h) hlater
      | true =>
        cases hfound : placeholder? (longestFirst (pathNames e)) (c :: rest) with
        | none =>
          rw [shown_of_none hfound]
          exact .char (fun _ => placeholder?_eq_none_iff.1 hfound) hlater
        | some found =>
          obtain ⟨key, name, after⟩ := found
          have hreplaced := placeholder?_eq_some_iff.1 hfound
          have hlength := congrArg List.length hreplaced.text
          rw [List.length_cons, List.length_cons, List.length_append] at hlength
          rw [shown_of_some hfound]
          exact .name hreplaced (ih after.length (by rw [List.length_cons]; omega) _ after rfl)

/-- The route is written in one way only. -/
theorem WrittenAs.eq_shown {atStart : Bool} (h : WrittenAs e atStart t out) :
    out = shown (longestFirst (pathNames e)) atStart t := by
  induction h with
  | nil => rfl
  | name hreplaced _ ih => rw [shown_of_some (placeholder?_eq_some_iff.2 hreplaced), ih]
  | @char atStart c rest out hnone _ ih =>
    cases atStart with
    | false => exact congrArg (c :: ·) ih
    | true =>
      rw [shown_of_none (placeholder?_eq_none_iff.2 (hnone rfl))]
      exact congrArg (c :: ·) ih

/-! ## One segment -/

/-- A segment has its code in the URL if the key that is read at its start is all of it. -/
theorem code_of_keyEndsSegment (hs : '/' ∉ s) (hafter : EndsSegment after)
    (hends : KeyEndsSegment e s (escapeTemplate s ++ after)) :
    ∃ out, SegmentCode e s out ∧ shown (longestFirst (pathNames e)) true (escapeTemplate s ++ after)
      = out ++ shown (longestFirst (pathNames e)) false after := by
  cases hfound : placeholder? (longestFirst (pathNames e)) (escapeTemplate s ++ after) with
  | none =>
    refine ⟨escapeTemplate s, .inl rfl, ?_⟩
    rw [shown_of_none hfound, shown_append (slash_not_mem_escapeTemplate hs)]
  | some found =>
    obtain ⟨key, name, rest⟩ := found
    have hreplaced := replaced_of_placeholder? hfound
    obtain ⟨p, hp, hrole, hkey, hname⟩ := hreplaced.parameter
    obtain ⟨hself, hlen, q, hq, hpath, whole, hwhole, rfl⟩ :=
      hends p hp hrole key hkey hreplaced.ne_nil hreplaced.reads
    have htext : ':' :: (whole ++ after) = ':' :: (key ++ rest) := by
      rw [← hreplaced.text, hself, List.cons_append]
    have hreads : readsKey whole (escapeTemplate (':' :: whole) ++ after) = true :=
      readsKey_iff.2 ⟨after, by rw [hself, List.cons_append], endsPlaceholder_of_endsSegment hafter⟩
    have hle := hreplaced.longest q hq hpath whole hwhole hreads
    have hlength : whole.length = key.length := by
      rw [List.length_cons] at hlen
      omega
    obtain ⟨rfl, rfl⟩ := List.append_inj (List.cons.inj htext).2 hlength
    refine ⟨interpolation name, .inr ⟨p, hp, hrole, ⟨whole, hkey, rfl⟩, by rw [hname]⟩, ?_⟩
    have hlast : decide (whole.getLast? = some '/') = false :=
      decide_eq_false fun h => hs (List.mem_cons_of_mem _ (List.mem_of_getLast? h))
    rw [shown_of_some hfound, hlast]

theorem slash_not_mem_code (hident : ∀ p ∈ e.parameters, isIdentifier p.name = true) (hs : '/' ∉ s)
    (hcode : SegmentCode e s out) : '/' ∉ out := by
  rcases hcode with rfl | ⟨p, hp, -, -, rfl⟩
  · exact slash_not_mem_escapeTemplate hs
  · have hname := TypeScript.not_mem_identifier (hident p hp) (c := '/') (by decide)
    simp [interpolation, hname]

theorem interpolation_append_inj {name' : Text} (hname : '}' ∉ name) (hname' : '}' ∉ name')
    (h : interpolation name ++ t = interpolation name' ++ u) : name = name' ∧ t = u := by
  have hparts : ∀ name t : Text, interpolation name ++ t = "$\x7b".toList ++ (name ++ '}' :: t) := by
    simp [interpolation]
  rw [hparts, hparts, List.append_cancel_left_eq] at h
  obtain ⟨hsame, hrest⟩ := cut_unique hname hname' (by simp) (by simp) h
  exact ⟨hsame, (List.cons.inj hrest).2⟩

/-- If a segment has its code in the URL, the key that is read at its start is all of it. -/
theorem keyEndsSegment_of_code (hnames : (e.parameters.map (·.name)).Nodup)
    (hident : ∀ p ∈ e.parameters, isIdentifier p.name = true) (hs : '/' ∉ s) (hafter : EndsSegment after)
    (hu : EndsSegment u) (hcode : SegmentCode e s out)
    (hshown : shown (longestFirst (pathNames e)) true (escapeTemplate s ++ after) = out ++ u) :
    KeyEndsSegment e s (escapeTemplate s ++ after) ∧ shown (longestFirst (pathNames e)) false after = u := by
  cases hfound : placeholder? (longestFirst (pathNames e)) (escapeTemplate s ++ after) with
  | none =>
    rw [shown_of_none hfound, shown_append (slash_not_mem_escapeTemplate hs)] at hshown
    exact ⟨keyEndsSegment_of_placeholder? hfound s, (cut_unique (slash_not_mem_escapeTemplate hs)
      (slash_not_mem_code hident hs hcode) (endsSegment_shown_iff.2 hafter) hu hshown).2⟩
  | some found =>
    obtain ⟨key, name, rest⟩ := found
    have hreplaced := replaced_of_placeholder? hfound
    obtain ⟨p, hp, hrole, hkey, rfl⟩ := hreplaced.parameter
    have htext := hreplaced.text
    rw [shown_of_some hfound] at hshown
    rcases hcode with rfl | ⟨q, hq, -, ⟨whole, hwhole, rfl⟩, rfl⟩
    · -- a hole begins with a dollar sign, the segment with the colon
      cases hself : escapeTemplate s with
      | nil =>
        rw [hself, List.nil_append] at htext
        exact absurd (hafter ':' (by rw [htext]; rfl)) (by decide)
      | cons c out =>
        rw [hself, List.cons_append, List.cons.injEq] at htext
        rw [hself, List.cons_append] at hshown
        have hdollar : '$' = c := (List.cons.inj hshown).1
        rw [htext.1] at hdollar
        exact absurd hdollar (by decide)
    · have hplain : ∀ p ∈ e.parameters, '}' ∉ p.name := fun p hp =>
        TypeScript.not_mem_identifier (hident p hp) (by decide)
      obtain ⟨hsame, hrest⟩ := interpolation_append_inj (hplain p hp) (hplain q hq) hshown
      obtain rfl : p = q := List.inj_on_of_nodup_map hnames hp hq hsame
      obtain rfl : key = whole := Option.mem_unique hkey hwhole
      have hlast : decide (key.getLast? = some '/') = false :=
        decide_eq_false fun h => hs (List.mem_cons_of_mem _ (List.mem_of_getLast? h))
      rw [hlast] at hrest
      have hend : EndsSegment rest := endsSegment_shown_iff.1 (hrest ▸ hu)
      obtain ⟨hself, rfl⟩ := cut_unique (slash_not_mem_escapeTemplate hs) hs hafter hend htext
      refine ⟨fun q hq hpath other hother _ hreads => ⟨hself, ?_, p, hp, hrole, key, hkey, rfl⟩, hrest⟩
      exact Nat.lt_succ_of_le (hreplaced.longest q hq hpath other hother hreads)

/-! ## All segments -/

theorem escapeTemplate_join_cons (s : Text) {more : List Text} (hmore : more ≠ []) :
    escapeTemplate (Text.join ['/'] (s :: more))
      = escapeTemplate s ++ '/' :: escapeTemplate (Text.join ['/'] more) := by
  obtain ⟨next, rest, rfl⟩ := List.exists_cons_of_ne_nil hmore
  rw [Text.join_cons_cons, List.singleton_append, escapeTemplate_append (endsSegment_slash _),
    escapeTemplate_slash]

theorem keysEndSegments_cons {segments : List Text} :
    KeysEndSegments e (s :: segments) ↔
      KeyEndsSegment e s (escapeTemplate (Text.join ['/'] (s :: segments))) ∧
        KeysEndSegments e segments := by
  simp [KeysEndSegments]

theorem codes_of_keysEndSegments {segments : List Text} (hne : segments ≠ [])
    (hs : ∀ s ∈ segments, '/' ∉ s) (h : KeysEndSegments e segments) :
    ∃ outs, List.Forall₂ (SegmentCode e) segments outs ∧
      shown (longestFirst (pathNames e)) true (escapeTemplate (Text.join ['/'] segments))
        = Text.join ['/'] outs := by
  induction segments with
  | nil => exact absurd rfl hne
  | cons s more ih =>
    obtain ⟨hfirst, hrest⟩ := keysEndSegments_cons.1 h
    have hslash := hs s List.mem_cons_self
    by_cases hmore : more = []
    · subst hmore
      rw [Text.join_singleton, ← List.append_nil (escapeTemplate s)] at hfirst
      obtain ⟨out, hcode, hout⟩ := code_of_keyEndsSegment hslash endsSegment_nil hfirst
      refine ⟨[out], .cons hcode .nil, ?_⟩
      rw [Text.join_singleton, Text.join_singleton, ← List.append_nil (escapeTemplate s), hout]
      exact List.append_nil out
    · rw [escapeTemplate_join_cons s hmore] at hfirst ⊢
      obtain ⟨out, hcode, hout⟩ := code_of_keyEndsSegment hslash (endsSegment_slash _) hfirst
      obtain ⟨outs, hcodes, houts⟩ := ih hmore (fun s hmem => hs s (List.mem_cons_of_mem _ hmem)) hrest
      refine ⟨out :: outs, .cons hcode hcodes, ?_⟩
      obtain ⟨next, others, rfl⟩ := List.exists_cons_of_ne_nil hmore
      cases hcodes with
      | cons _ _ => rw [hout, shown_slash, houts, Text.join_cons_cons, List.singleton_append]

theorem keysEndSegments_of_codes (hnames : (e.parameters.map (·.name)).Nodup)
    (hident : ∀ p ∈ e.parameters, isIdentifier p.name = true) {segments outs : List Text}
    (hs : ∀ s ∈ segments, '/' ∉ s) (hcodes : List.Forall₂ (SegmentCode e) segments outs)
    (h : shown (longestFirst (pathNames e)) true (escapeTemplate (Text.join ['/'] segments))
      = Text.join ['/'] outs) :
    KeysEndSegments e segments := by
  induction hcodes with
  | nil => simp [KeysEndSegments]
  | @cons s out more outs hcode hcodes ih =>
    have hslash := hs s List.mem_cons_self
    rw [keysEndSegments_cons]
    cases hcodes with
    | nil =>
      rw [Text.join_singleton, Text.join_singleton, ← List.append_nil (escapeTemplate s),
        ← List.append_nil out] at h
      have hfirst := keyEndsSegment_of_code hnames hident hslash endsSegment_nil endsSegment_nil hcode h
      rw [Text.join_singleton, ← List.append_nil (escapeTemplate s)]
      exact ⟨hfirst.1, by simp [KeysEndSegments]⟩
    | cons hcode' hcodes =>
      rw [escapeTemplate_join_cons s (List.cons_ne_nil _ _), Text.join_cons_cons,
        List.singleton_append] at h
      obtain ⟨hfirst, hrest⟩ := keyEndsSegment_of_code hnames hident hslash (endsSegment_slash _)
        (endsSegment_slash _) hcode h
      rw [escapeTemplate_join_cons s (List.cons_ne_nil _ _)]
      rw [shown_slash, List.cons.injEq] at hrest
      exact ⟨hfirst, ih (fun s hmem => hs s (List.mem_cons_of_mem _ hmem)) hrest.2⟩

/-! ## The whole URL -/

theorem urlExpression_eq_shown (e : Endpoint) :
    urlExpression e = "\x60$\x7bthis.BASE_URL\x7d".toList
      ++ (if e.route = [] then [] else
        '/' :: shown (longestFirst (pathNames e)) true (escapeTemplate e.route)) ++ ['\x60'] := by
  have hshown : interpolate (longestFirst (pathNames e)) (escapeTemplate e.route)
      = shown (longestFirst (pathNames e)) true (escapeTemplate e.route) := rfl
  rw [urlExpression_eq, hshown, List.append_assoc, List.append_right_inj]
  by_cases hroute : e.route = []
  · rw [if_pos hroute, if_pos (shown_eq_nil_iff.2 (escapeTemplate_eq_nil_iff.2 hroute))]
    rfl
  · rw [if_neg hroute, if_neg (mt (shown_eq_nil_iff.1 · |> escapeTemplate_eq_nil_iff.1) hroute)]
    rfl

theorem interpolatesSegments_iff : InterpolatesSegments e ↔
    ∃ outs, List.Forall₂ (SegmentCode e) (Text.split '/' e.route) outs ∧
      shown (longestFirst (pathNames e)) true (escapeTemplate e.route) = Text.join ['/'] outs := by
  unfold InterpolatesSegments
  refine exists_congr fun outs => and_congr_right fun hcodes => ?_
  rw [urlExpression_eq_shown, List.append_left_inj, List.append_right_inj]
  by_cases hroute : e.route = []
  · -- the route without characters has one segment, whose code is empty
    rw [hroute] at hcodes ⊢
    cases hcodes with
    | cons hcode hnil =>
      cases hnil
      rcases hcode with rfl | ⟨p, -, -, ⟨key, -, hkey⟩, -⟩
      · simp [Text.join_singleton, escapeTemplate, shown, interpolateUpTo]
      · cases hkey
  · rw [if_neg hroute, if_neg hroute, List.cons.injEq]
    exact and_iff_right rfl

/-- The URL of a request has parameters for whole segments of the route only, and every other segment as plain
text, if a key is read at the start of a segment only where the segment is a placeholder, of this key or of a
longer one. With names of their own for the parameters this is also what it takes: a key that is read in front
of something else puts a parameter for a part of a segment. -/
theorem urlExpression_segments (e : Endpoint) :
    (KeysEndSegments e (Text.split '/' e.route) → InterpolatesSegments e) ∧
      ((e.parameters.map (·.name)).Nodup → (∀ p ∈ e.parameters, isIdentifier p.name = true) →
        InterpolatesSegments e → KeysEndSegments e (Text.split '/' e.route)) := by
  have hs : ∀ s ∈ Text.split '/' e.route, '/' ∉ s := fun s => Text.not_mem_of_mem_split
  rw [interpolatesSegments_iff]
  constructor
  · intro hends
    obtain ⟨outs, hcodes, hshown⟩ := codes_of_keysEndSegments (Text.split_ne_nil '/' e.route) hs hends
    rw [Text.join_split] at hshown
    exact ⟨outs, hcodes, hshown⟩
  · rintro hnames hident ⟨outs, hcodes, hshown⟩
    refine keysEndSegments_of_codes hnames hident hs hcodes ?_
    rw [Text.join_split, hshown]

/-- A key that is read in front of a dot, where the segment goes on. -/
def reportEndpoint : Endpoint :=
  { methodName := "report".toList
    verb := .get
    route := ":id.json".toList
    parameters := [{ name := "id".toList, type := .any, role := .path, key := some "id".toList }]
    returnType := .any }

theorem urlExpression_segments_report :
    InterpolatesSegments memberEndpoint ∧
      (reportEndpoint.parameters.map (·.name)).Nodup ∧
      (∀ p ∈ reportEndpoint.parameters, isIdentifier p.name = true) ∧
      urlExpression reportEndpoint = "\x60$\x7bthis.BASE_URL\x7d/$\x7bid\x7d.json\x60".toList ∧
      ¬InterpolatesSegments reportEndpoint := by
  have hmember : KeysEndSegments memberEndpoint (Text.split '/' memberEndpoint.route) := by decide +kernel
  have hnames : (reportEndpoint.parameters.map (·.name)).Nodup := by decide
  have hident : ∀ p ∈ reportEndpoint.parameters, isIdentifier p.name = true := by decide +kernel
  have hreport : ¬KeysEndSegments reportEndpoint (Text.split '/' reportEndpoint.route) := by
    decide +kernel
  exact ⟨(urlExpression_segments memberEndpoint).1 hmember, hnames, hident, by decide +kernel,
    fun h => hreport ((urlExpression_segments reportEndpoint).2 hnames hident h)⟩

end NestClient.Client
