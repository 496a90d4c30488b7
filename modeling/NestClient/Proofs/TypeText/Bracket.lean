import Mathlib.Data.List.Infix
import NestClient.Proofs.Text.Trim
import NestClient.TypeText.Bracket

/-! How deep a text goes into angle brackets, and what that says about where a bracket closes.

* `angleDepth`: the brackets that a text opens, less those that it closes.
* `closingOffset_eq_some_iff`: an open bracket closes where the depth comes down to zero first.
* `unwrap?_eq_some_iff`: a wrapper is taken off where what it wraps is balanced. -/

namespace NestClient.TypeText

variable {before : Option Char} {c : Char} {d : Int} {s t : Text}

/-! ## Depth -/

/-- What a character adds to the depth of angle brackets, given the character before it. -/
def angleWeight (before : Option Char) (c : Char) : Int :=
  if c = '<' then 1 else if closesAngle before c then -1 else 0

/-- The angle brackets that the text opens, less those that it closes. -/
def angleDepth (before : Option Char) : Text → Int
  | [] => 0
  | c :: rest => angleWeight before c + angleDepth (some c) rest

/-- No bracket closes that is not open, and none stays open. -/
structure AngleBalanced (t : Text) : Prop where
  nonneg : ∀ lead, lead <+: t → 0 ≤ angleDepth none lead
  total : angleDepth none t = 0

instance (t : Text) : Decidable (AngleBalanced t) :=
  decidable_of_iff ((∀ lead ∈ t.inits, 0 ≤ angleDepth none lead) ∧ angleDepth none t = 0)
    ⟨fun h => ⟨fun lead hl => h.1 lead ((List.mem_inits lead t).2 hl), h.2⟩,
      fun h => ⟨fun lead hl => h.nonneg lead ((List.mem_inits lead t).1 hl), h.total⟩⟩

/-- The text can stand between a bracket and the `>` that closes it. -/
structure Wrappable (t : Text) : Prop where
  balanced : AngleBalanced t
  last : t.getLast? ≠ some '='

theorem getLast?_cons_or (c : Char) (t : Text) (before : Option Char) :
    (c :: t).getLast?.or before = t.getLast?.or (some c) := by
  rw [List.getLast?_cons]
  cases t.getLast? <;> rfl

theorem angleDepth_append (before : Option Char) (s t : Text) :
    angleDepth before (s ++ t) = angleDepth before s + angleDepth (s.getLast?.or before) t := by
  induction s generalizing before with
  | nil => simp [angleDepth]
  | cons c rest ih =>
    rw [List.cons_append, angleDepth, angleDepth, ih, getLast?_cons_or, Int.add_assoc]

theorem angleWeight_of_ne (h : before ≠ some '=') (c : Char) :
    angleWeight before c = angleWeight none c := by
  have hb : (before != some '=') = true := by simpa using h
  rw [angleWeight, angleWeight, closesAngle, closesAngle, hb]
  rfl

/-- Only a `=` before a text takes part in its depth. -/
theorem angleDepth_of_ne (h : before ≠ some '=') (t : Text) :
    angleDepth before t = angleDepth none t := by
  cases t with
  | nil => rfl
  | cons c rest => rw [angleDepth, angleDepth, angleWeight_of_ne h]

theorem angleDepth_of_head? (h : t.head? ≠ some '>') (before : Option Char) :
    angleDepth before t = angleDepth none t := by
  cases t with
  | nil => rfl
  | cons c rest =>
    have hc : c ≠ '>' := fun hc => h (by rw [hc]; rfl)
    simp [angleDepth, angleWeight, closesAngle, hc]

theorem angleDepth_eq_zero (h : ∀ c ∈ t, c ≠ '<' ∧ c ≠ '>') : angleDepth before t = 0 := by
  induction t generalizing before with
  | nil => rfl
  | cons c rest ih =>
    have hc := h c List.mem_cons_self
    rw [angleDepth, ih fun d hd => h d (List.mem_cons_of_mem c hd)]
    simp [angleWeight, closesAngle, hc.1, hc.2]

theorem not_angle_of_isBlank (h : isBlank c = true) : c ≠ '<' ∧ c ≠ '>' ∧ c ≠ '=' := by
  refine ⟨?_, ?_, ?_⟩ <;> rintro rfl <;> exact absurd h (by decide)

theorem angleDepth_trim (t : Text) : angleDepth none (Text.trim t) = angleDepth none t := by
  obtain ⟨lead, tail, ht, hlead, htail⟩ := Text.exists_trim t
  have hlead' : angleDepth none lead = 0 :=
    angleDepth_eq_zero fun c hc => (not_angle_of_isBlank (hlead c hc)).imp_right And.left
  have htail' : ∀ b, angleDepth b tail = 0 := fun b =>
    angleDepth_eq_zero fun c hc => (not_angle_of_isBlank (htail c hc)).imp_right And.left
  have hne : lead.getLast?.or none ≠ some '=' := by
    rw [Option.or_none]
    exact fun hlast => (not_angle_of_isBlank (hlead '=' (List.mem_of_getLast? hlast))).2.2 rfl
  conv_rhs => rw [ht]
  rw [angleDepth_append, angleDepth_append, hlead', htail', angleDepth_of_ne hne]
  omega

/-! ## Inside of a bracket -/

/-- A bracket that is open `d` deep before the text is not closed in it. -/
def StaysOpen (before : Option Char) (d : Int) (t : Text) : Prop :=
  ∀ lead, lead <+: t → 1 ≤ d + angleDepth before lead

namespace StaysOpen

theorem pos (h : StaysOpen before d t) : 1 ≤ d := by
  simpa [angleDepth] using h [] List.nil_prefix

theorem depth (h : StaysOpen before d t) : 1 ≤ d + angleDepth before t :=
  h t List.prefix_rfl

theorem of_ne (h : StaysOpen before d t) (hb : before ≠ some '=') : StaysOpen none d t :=
  fun lead hl => angleDepth_of_ne hb lead ▸ h lead hl

end StaysOpen

theorem staysOpen_nil : StaysOpen before d [] ↔ 1 ≤ d := by
  constructor
  · exact StaysOpen.pos
  · intro hd lead hl
    rw [List.prefix_nil.1 hl]
    simpa [angleDepth] using hd

theorem staysOpen_cons : StaysOpen before d (c :: t) ↔
    1 ≤ d ∧ StaysOpen (some c) (d + angleWeight before c) t := by
  constructor
  · intro h
    refine ⟨h.pos, fun lead hl => ?_⟩
    have hlead := h (c :: lead) (List.cons_prefix_cons.2 ⟨rfl, hl⟩)
    rwa [angleDepth, ← Int.add_assoc] at hlead
  · rintro ⟨hd, ht⟩ lead hl
    rcases List.prefix_cons_iff.1 hl with rfl | ⟨more, rfl, hmore⟩
    · simpa [angleDepth] using hd
    · rw [angleDepth, ← Int.add_assoc]
      exact ht more hmore

theorem staysOpen_append : StaysOpen before d (s ++ t) ↔
    StaysOpen before d s ∧ StaysOpen (s.getLast?.or before) (d + angleDepth before s) t := by
  induction s generalizing before d with
  | nil =>
    simp only [List.nil_append, angleDepth, Int.add_zero, List.getLast?_nil, Option.none_or]
    exact ⟨fun h => ⟨staysOpen_nil.2 h.pos, h⟩, And.right⟩
  | cons c s ih =>
    rw [List.cons_append, staysOpen_cons, staysOpen_cons, ih, angleDepth, getLast?_cons_or,
      Int.add_assoc, and_assoc]

theorem staysOpen_of_not_mem (hd : 1 ≤ d) (h : '>' ∉ t) : StaysOpen before d t := by
  induction t generalizing before d with
  | nil => exact staysOpen_nil.2 hd
  | cons c rest ih =>
    rw [List.mem_cons, not_or] at h
    have hweight : 0 ≤ angleWeight before c := by
      unfold angleWeight
      split <;> simp [closesAngle, Ne.symm h.1]
    exact staysOpen_cons.2 ⟨hd, ih (by omega) h.2⟩

theorem StaysOpen.trim (h : StaysOpen none d t) : StaysOpen none d (Text.trim t) := by
  obtain ⟨lead, tail, ht, hlead, -⟩ := Text.exists_trim t
  rw [ht, staysOpen_append, staysOpen_append] at h
  have hzero : angleDepth none lead = 0 :=
    angleDepth_eq_zero fun c hc => (not_angle_of_isBlank (hlead c hc)).imp_right And.left
  rw [hzero, Int.add_zero, Option.or_none] at h
  refine h.2.1.of_ne fun hlast => ?_
  exact (not_angle_of_isBlank (hlead '=' (List.mem_of_getLast? hlast))).2.2 rfl

/-! ## Balanced texts -/

theorem angleBalanced_iff : AngleBalanced t ↔ StaysOpen none 1 t ∧ angleDepth none t = 0 := by
  constructor
  · intro h
    exact ⟨fun lead hl => by have := h.nonneg lead hl; omega, h.total⟩
  · rintro ⟨hopen, htotal⟩
    exact ⟨fun lead hl => by have := hopen lead hl; omega, htotal⟩

namespace AngleBalanced

theorem trim (h : AngleBalanced t) : AngleBalanced (Text.trim t) := by
  rw [angleBalanced_iff] at h ⊢
  exact ⟨h.1.trim, by rw [angleDepth_trim, h.2]⟩

theorem head?_ne (h : AngleBalanced t) : t.head? ≠ some '>' := by
  intro hhead
  cases t with
  | nil => simp at hhead
  | cons c rest =>
    obtain rfl : c = '>' := Option.some.inj hhead
    have hfirst := h.nonneg ['>'] (by simp)
    exact absurd hfirst (by decide)

/-- A balanced text is as deep as nothing, whatever comes before it. -/
theorem angleDepth_eq (h : AngleBalanced t) (before : Option Char) : angleDepth before t = 0 :=
  (angleDepth_of_head? h.head?_ne before).trans h.total

theorem staysOpen (h : AngleBalanced t) (hd : 1 ≤ d) (before : Option Char) :
    StaysOpen before d t := by
  intro lead hl
  have hhead : lead.head? ≠ some '>' := by
    cases lead with
    | nil => simp
    | cons c lead =>
      obtain ⟨rest, rfl⟩ := hl
      exact h.head?_ne
  have hlead := h.nonneg lead hl
  rw [angleDepth_of_head? hhead]
  omega

end AngleBalanced

/-! ## Where a bracket closes -/

/-- A bracket that is open `d` deep before the text closes with its last character. -/
structure ClosesLast (before : Option Char) (d : Int) (t : Text) : Prop where
  total : d + angleDepth before t = 0
  isOpen : ∀ lead, lead <+: t → lead ≠ t → 1 ≤ d + angleDepth before lead

theorem not_closesLast_nil (hd : 1 ≤ d) : ¬ClosesLast before d [] := by
  intro h
  have htotal := h.total
  simp only [angleDepth] at htotal
  omega

theorem ClosesLast.of_ne {before' : Option Char} (h : ClosesLast before d t)
    (hb : before ≠ some '=') (hb' : before' ≠ some '=') : ClosesLast before' d t := by
  have hdepth : ∀ s, angleDepth before' s = angleDepth before s := fun s =>
    (angleDepth_of_ne hb' s).trans (angleDepth_of_ne hb s).symm
  refine ⟨by rw [hdepth, h.total], fun lead hl hne => ?_⟩
  rw [hdepth]
  exact h.isOpen lead hl hne

theorem closesLast_cons (hd : 1 ≤ d) : ClosesLast before d (c :: t) ↔
    d + angleWeight before c = 0 ∧ t = [] ∨
      1 ≤ d + angleWeight before c ∧ ClosesLast (some c) (d + angleWeight before c) t := by
  constructor
  · rintro ⟨htotal, hopen⟩
    by_cases ht : t = []
    · subst ht
      simp only [angleDepth, Int.add_zero] at htotal
      exact .inl ⟨htotal, rfl⟩
    · have hfirst := hopen [c] (by simp) (by simpa using Ne.symm ht)
      simp only [angleDepth, Int.add_zero] at hfirst
      refine .inr ⟨hfirst, by rwa [angleDepth, ← Int.add_assoc] at htotal, fun lead hl hne => ?_⟩
      have hlead := hopen (c :: lead) (List.cons_prefix_cons.2 ⟨rfl, hl⟩) (by simpa using hne)
      rwa [angleDepth, ← Int.add_assoc] at hlead
  · rintro (⟨hzero, rfl⟩ | ⟨-, htotal, hopen⟩)
    · refine ⟨by simpa [angleDepth] using hzero, fun lead hl hne => ?_⟩
      rcases List.prefix_cons_iff.1 hl with rfl | ⟨more, rfl, hmore⟩
      · simpa [angleDepth] using hd
      · exact absurd (by rw [List.prefix_nil.1 hmore]) hne
    · refine ⟨by rw [angleDepth, ← Int.add_assoc, htotal], fun lead hl hne => ?_⟩
      rcases List.prefix_cons_iff.1 hl with rfl | ⟨more, rfl, hmore⟩
      · simpa [angleDepth] using hd
      · rw [angleDepth, ← Int.add_assoc]
        exact hopen more hmore (by simpa using hne)

theorem closesLast_append (hd : 1 ≤ d) (ht : t ≠ []) : ClosesLast before d (s ++ t) ↔
    StaysOpen before d s ∧ ClosesLast (s.getLast?.or before) (d + angleDepth before s) t := by
  induction s generalizing before d with
  | nil => simp [angleDepth, staysOpen_nil, hd]
  | cons c s ih =>
    rw [List.cons_append, closesLast_cons hd, angleDepth, ← Int.add_assoc, getLast?_cons_or,
      staysOpen_cons]
    have hne : s ++ t ≠ [] := by simp [ht]
    by_cases hpos : 1 ≤ d + angleWeight before c
    · simp [ih hpos, hne, hd, hpos]
    · have hclosed : ¬StaysOpen (some c) (d + angleWeight before c) s := fun h => hpos h.pos
      simp [hne, hpos, hclosed]

theorem closesLast_singleton (hd : 1 ≤ d) :
    ClosesLast before d ['>'] ↔ d = 1 ∧ before ≠ some '=' := by
  rw [closesLast_cons hd]
  by_cases hb : before = some '='
  · have hweight : angleWeight before '>' = 0 := by rw [hb]; decide
    rw [hweight, Int.add_zero]
    simp only [not_closesLast_nil hd, hb, and_false, or_false, and_true, ne_eq, not_true_eq_false,
      iff_false]
    omega
  · have hweight : angleWeight before '>' = -1 := by rw [angleWeight_of_ne hb]; decide
    have hnil : ¬(1 ≤ d + -1 ∧ ClosesLast (some '>') (d + -1) []) :=
      fun h => not_closesLast_nil h.1 h.2
    rw [hweight]
    simp only [hnil, or_false, and_true, hb, ne_eq, not_false_eq_true]
    omega

/-- Between a bracket and the `>` that closes it stands a balanced text. -/
theorem closesLast_concat_iff : ClosesLast none 1 (t ++ ['>']) ↔ Wrappable t := by
  rw [closesLast_append (by decide) (by simp), Option.or_none]
  constructor
  · rintro ⟨hopen, hcloses⟩
    obtain ⟨hone, hlast⟩ := (closesLast_singleton hopen.depth).1 hcloses
    exact ⟨angleBalanced_iff.2 ⟨hopen, by omega⟩, hlast⟩
  · rintro ⟨hbalanced, hlast⟩
    obtain ⟨hopen, hzero⟩ := angleBalanced_iff.1 hbalanced
    exact ⟨hopen, (closesLast_singleton hopen.depth).2 ⟨by omega, hlast⟩⟩

theorem ClosesLast.exists_concat (h : ClosesLast before d t) (hd : 1 ≤ d) :
    ∃ inner, t = inner ++ ['>'] := by
  rcases List.eq_nil_or_concat t with rfl | ⟨inner, c, rfl⟩
  · exact absurd h (not_closesLast_nil hd)
  rw [List.concat_eq_append] at h ⊢
  obtain ⟨hopen, hlast⟩ := (closesLast_append hd (by simp)).1 h
  have hzero := hlast.total
  have hdepth := hopen.depth
  simp only [angleDepth, angleWeight, Int.add_zero] at hzero
  split at hzero
  · omega
  split at hzero
  next hclose =>
    rw [closesAngle, Bool.and_eq_true, decide_eq_true_eq] at hclose
    exact ⟨inner, by rw [hclose.1]⟩
  next => omega

/-- An open bracket closes at the first character with which the depth comes down to zero. -/
theorem closingOffset_eq_some_iff (hd : 1 ≤ d) {k : Nat} : closingOffset before d t = some k ↔
    ∃ closed rest, t = closed ++ rest ∧ closed.length = k + 1 ∧ ClosesLast before d closed := by
  induction t generalizing before d k with
  | nil =>
    simp only [closingOffset, reduceCtorEq, List.nil_eq, List.append_eq_nil_iff, false_iff]
    rintro ⟨closed, rest, ⟨rfl, -⟩, hlen, -⟩
    simp at hlen
  | cons c more ih =>
    -- one character further: it closes the bracket, or the rest has to
    have hstep : closingOffset before d (c :: more) = some k ↔
        d + angleWeight before c = 0 ∧ k = 0 ∨ 1 ≤ d + angleWeight before c ∧
          ∃ j, k = j + 1 ∧ closingOffset (some c) (d + angleWeight before c) more = some j := by
      rw [closingOffset, angleWeight]
      split
      · simp only [Option.map_eq_some_iff]
        grind
      split
      · split <;> simp only [Option.map_eq_some_iff, Option.some.injEq] <;> grind
      · simp only [Option.map_eq_some_iff, Int.add_zero]
        grind
    rw [hstep]
    constructor
    · rintro (⟨hzero, rfl⟩ | ⟨hpos, j, rfl, hj⟩)
      · exact ⟨[c], more, rfl, rfl, (closesLast_cons hd).2 (.inl ⟨hzero, rfl⟩)⟩
      · obtain ⟨closed, rest, rfl, hlen, hcloses⟩ := (ih hpos).1 hj
        refine ⟨c :: closed, rest, rfl, by simp [hlen], ?_⟩
        exact (closesLast_cons hd).2 (.inr ⟨hpos, hcloses⟩)
    · rintro ⟨closed, rest, ht, hlen, hcloses⟩
      cases closed with
      | nil => simp at hlen
      | cons b closed =>
        obtain ⟨rfl, rfl⟩ := List.cons.inj ht
        simp only [List.length_cons, Nat.add_right_cancel_iff] at hlen
        rcases (closesLast_cons hd).1 hcloses with ⟨hzero, rfl⟩ | ⟨hpos, hcloses⟩
        · exact .inl ⟨hzero, hlen.symm⟩
        · obtain ⟨inner, rfl⟩ := hcloses.exists_concat hpos
          rw [List.length_append, List.length_singleton] at hlen
          refine .inr ⟨hpos, inner.length, hlen.symm, (ih hpos).2 ?_⟩
          exact ⟨inner ++ ['>'], rest, rfl, by simp, hcloses⟩

/-- A bracket that is open once closes behind a balanced text. -/
theorem closingOffset_one_eq_some_iff {k : Nat} : closingOffset (some '<') 1 t = some k ↔
    ∃ inner rest, t = inner ++ '>' :: rest ∧ inner.length = k ∧ Wrappable inner := by
  rw [closingOffset_eq_some_iff (by decide)]
  constructor
  · rintro ⟨closed, rest, rfl, hlen, hcloses⟩
    obtain ⟨inner, rfl⟩ := hcloses.exists_concat (by decide)
    have hinner := closesLast_concat_iff.1 (hcloses.of_ne (by decide) (by decide))
    exact ⟨inner, rest, by simp, by simpa using hlen, hinner⟩
  · rintro ⟨inner, rest, rfl, rfl, hinner⟩
    refine ⟨inner ++ ['>'], rest, by simp, by simp, ?_⟩
    exact (closesLast_concat_iff.2 hinner).of_ne (by decide) (by decide)

/-! ## Parts that do not count -/

/-- Wherever the part stands inside of brackets, it leaves them open as they are. -/
structure Neutral (t : Text) : Prop where
  depth : ∀ before, angleDepth before t = 0
  isOpen : ∀ before d, 1 ≤ d → StaysOpen before d t
  last : ∀ before, t.getLast?.or before ≠ some '='

namespace Neutral

variable {part : Text}

theorem ne_nil (h : Neutral part) : part ≠ [] := by
  rintro rfl
  exact h.last (some '=') rfl

theorem angleDepth_append (h : Neutral part) (before : Option Char) (s t : Text) :
    angleDepth before (s ++ (part ++ t)) = angleDepth before s + angleDepth none t := by
  rw [TypeText.angleDepth_append, TypeText.angleDepth_append, h.depth, angleDepth_of_ne (h.last _)]
  omega

theorem staysOpen_append (h : Neutral part) : StaysOpen before d (s ++ (part ++ t)) ↔
    StaysOpen before d s ∧ StaysOpen none (d + angleDepth before s) t := by
  rw [TypeText.staysOpen_append, TypeText.staysOpen_append, h.depth, Int.add_zero]
  constructor
  · rintro ⟨hs, -, ht⟩
    exact ⟨hs, ht.of_ne (h.last _)⟩
  · rintro ⟨hs, ht⟩
    refine ⟨hs, h.isOpen _ _ hs.depth, fun lead hl => ?_⟩
    rw [angleDepth_of_ne (h.last _)]
    exact ht lead hl

theorem closesLast_append (h : Neutral part) (hd : 1 ≤ d) :
    ClosesLast before d (s ++ (part ++ t)) ↔
      StaysOpen before d s ∧ ClosesLast none (d + angleDepth before s) t := by
  by_cases ht : t = []
  · subst ht
    constructor
    · rintro ⟨htotal, hopen⟩
      have hlead := hopen s (List.prefix_append _ _) (by simp [h.ne_nil])
      rw [h.angleDepth_append] at htotal
      simp only [angleDepth] at htotal
      omega
    · rintro ⟨hs, hnil⟩
      exact absurd hnil (not_closesLast_nil hs.depth)
  · rw [TypeText.closesLast_append hd (by simp [ht])]
    refine and_congr_right fun hs => ?_
    rw [TypeText.closesLast_append hs.depth ht, h.depth, Int.add_zero]
    constructor
    · rintro ⟨-, hcloses⟩
      exact hcloses.of_ne (h.last _) (by simp)
    · intro hcloses
      exact ⟨h.isOpen _ _ hs.depth, hcloses.of_ne (by simp) (h.last _)⟩

end Neutral

/-! ## Wrappers -/

theorem matchingAngle_append (lead rest : Text) :
    matchingAngle (lead ++ '<' :: rest) lead.length
      = (closingOffset (some '<') 1 rest).map (lead.length + 1 + ·) := by
  have hopen : ∀ before, closingOffset before 0 ('<' :: rest)
      = (closingOffset (some '<') 1 rest).map (· + 1) := fun before => by
    rw [closingOffset, if_pos rfl]
    rfl
  unfold matchingAngle
  dsimp only
  rw [List.drop_left, hopen, Option.map_map]
  congr 1
  funext k
  simp only [Function.comp]
  omega

/-- A wrapper is taken off where its bracket closes with the text: what stands between is balanced. -/
theorem unwrap?_eq_some_iff {wrapper inner : Text} :
    unwrap? wrapper t = some inner ↔ ∃ inside, Text.trim t = wrapper ++ '<' :: (inside ++ ['>']) ∧
      Wrappable inside ∧ inner = Text.trim inside := by
  unfold unwrap?
  dsimp only
  cases hlead : Text.dropLead? (wrapper ++ ['<']) (Text.trim t) with
  | none =>
    simp only [reduceCtorEq, false_iff]
    rintro ⟨inside, ht, -⟩
    rw [List.append_cons, ← Text.dropLead?_eq_some_iff, hlead] at ht
    simp at ht
  | some body =>
    rw [Text.dropLead?_eq_some_iff, List.append_assoc, List.singleton_append] at hlead
    dsimp only
    rw [Option.ite_none_right_eq_some, hlead, matchingAngle_append, Option.map_eq_some_iff,
      List.length_append, List.length_cons, Option.some.injEq]
    constructor
    · rintro ⟨⟨k, hk, hlen⟩, rfl⟩
      obtain ⟨inside, rest, rfl, rfl, hinside⟩ := closingOffset_one_eq_some_iff.1 hk
      obtain rfl : rest = [] := by
        rw [List.length_append, List.length_cons] at hlen
        exact List.length_eq_zero_iff.1 (by omega)
      exact ⟨inside, rfl, hinside, by rw [List.dropLast_concat]⟩
    · rintro ⟨inside, hbody, hinside, rfl⟩
      obtain rfl : body = inside ++ ['>'] := by simpa using hbody
      refine ⟨⟨inside.length, ?_, ?_⟩, by rw [List.dropLast_concat]⟩
      · exact closingOffset_one_eq_some_iff.2 ⟨inside, [], rfl, rfl, hinside⟩
      · simp only [List.length_append, List.length_singleton]
        omega

/-! ## Pieces between separators -/

theorem cut_ne_nil (isSep : Char → Bool) (before : Option Char) (depth : Int) (t : Text) :
    cut isSep before depth t ≠ [] := by
  cases t with
  | nil => simp [cut]
  | cons c rest =>
    rw [cut]
    split
    · exact Text.lengthenHead_ne_nil c _
    · split
      · exact Text.lengthenHead_ne_nil c _
      · split
        · simp
        · exact Text.lengthenHead_ne_nil c _

end NestClient.TypeText
