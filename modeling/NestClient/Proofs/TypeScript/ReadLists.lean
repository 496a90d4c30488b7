import NestClient.Proofs.TypeScript.Reads

/-! Readers that repeat another one: up to a token that stops them, and with commas between the items.
What is told of each item is told of the list, item by item. -/

namespace NestClient.TypeScript

/-- For each result, in order, the telling of it holds of the leaves it comes from; there are no other
leaves. -/
inductive Each {α : Type} : List (α → List Leaf → Prop) → List α → List Leaf → Prop
  | nil : Each [] [] []
  | cons {Q : α → List Leaf → Prop} {Qs : List (α → List Leaf → Prop)} {a : α} {as : List α}
      {leaves more : List Leaf} (hQ : Q a leaves) (hmore : Each Qs as more) :
      Each (Q :: Qs) (a :: as) (leaves ++ more)

/-- From one text to another a reader can go on, item by item, until a token stops it. -/
inductive Run {α : Type} (stop : Token → Bool) (item : Parse α) :
    Text → List (α → List Leaf → Prop) → Text → Prop
  | stop {t : Text} (h : Next stop t true) : Run stop item t [] t
  | item {t mid after : Text} {Q : α → List Leaf → Prop} {Qs : List (α → List Leaf → Prop)}
      (h : Next stop t false) (hitem : Reads item t mid Q) (hmore : Run stop item mid Qs after) :
      Run stop item t (Q :: Qs) after

namespace Reads

open Parse

section Lists

variable {α : Type} {t mid after : Text} {bound : Nat}

theorem manyUntil {stop : Token → Bool} {item : Parse α} {Qs : List (α → List Leaf → Prop)}
    (h : Run stop item t Qs after) (hbound : Qs.length < bound) :
    Reads (manyUntil bound stop item) t after (Each Qs) := by
  -- the items read so far stand last first
  have hloop (seen : List α) : Reads
      (iterate (fun items => do
        if stop (← peek) then return none
        else return some ((← item) :: items)) bound seen) t after
      fun items leaves => ∃ as, items = as.reverse ++ seen ∧ Each Qs as leaves := by
    induction h generalizing bound seen with
    | stop hstop =>
      refine iterate_last (by omega) ?_
      obtain ⟨kind, lead, word, rest, hs, htest⟩ := hstop
      refine peek_bind hs fun line place => ?_
      rw [if_pos (htest line place)]
      exact pure ⟨rfl, [], rfl, .nil⟩
    | @item t mid after Q Qs hgo hitem _ ih =>
      obtain ⟨bound, rfl⟩ := Nat.exists_eq_succ_of_ne_zero (Nat.ne_zero_of_lt hbound)
      obtain ⟨kind, lead, word, rest, hs, htest⟩ := hgo
      have hone : Reads
          (do
            if stop (← peek) then return none
            else return some ((← item) :: seen)) t mid
          fun items leaves => ∃ next, items = some next ∧ ∃ a, next = a :: seen ∧ Q a leaves := by
        refine peek_bind hs fun line place => ?_
        rw [if_neg (by simp [htest])]
        exact hitem.bind fun a leaves hQ => pure ⟨_, rfl, a, rfl, by rwa [List.append_nil]⟩
      refine iterate_next hone fun next leaves hnext => ?_
      obtain ⟨a, rfl, hQ⟩ := hnext
      refine (ih (by simpa using hbound) (a :: seen)).mono fun items more h => ?_
      obtain ⟨as, rfl, heach⟩ := h
      exact ⟨a :: as, by simp, .cons hQ heach⟩
  refine (hloop []).bind fun items leaves h => ?_
  obtain ⟨as, rfl, heach⟩ := h
  exact pure (by simpa using heach)

theorem manyWhile {start : Token → Bool} {item : Parse α} {Qs : List (α → List Leaf → Prop)}
    (h : Run (fun t => !start t) item t Qs after) (hbound : Qs.length < bound) :
    Reads (manyWhile bound start item) t after (Each Qs) :=
  manyUntil h hbound

end Lists

end Reads

/-! ## Commas -/

/-- What is told of items with commas between them, given the blanks before the first: all but the last
come with a comma. -/
def withCommas {α β : Type} (Q : Text → β → α → List Leaf → Prop) :
    Text → List β → List (α → List Leaf → Prop)
  | _, [] => []
  | lead, [x] => [Q lead x]
  | lead, x :: y :: ys =>
    (fun a leaves => ∃ item comma, leaves = item ++ comma ∧ Q lead x a item
      ∧ Cut comma [.plain [], .plain [',']]) :: withCommas Q " ".toList (y :: ys)

theorem length_withCommas {α β : Type} (Q : Text → β → α → List Leaf → Prop) (lead : Text)
    (xs : List β) : (withCommas Q lead xs).length = xs.length := by
  induction xs generalizing lead with
  | nil => rfl
  | cons x xs ih =>
    cases xs with
    | nil => rfl
    | cons y ys => exact congrArg (· + 1) (ih " ".toList)

namespace Printed

theorem listed_single (t : Text) : listed [t] = t := by simp [listed, Text.join]

theorem listed_cons_cons (t u : Text) (more : List Text) :
    listed (t :: u :: more) = t ++ (',' :: ' ' :: listed (u :: more)) := by
  simp [listed, Text.join, List.intercalate]

/-- The first item of a list stands before a comma or what follows the list. -/
theorem listed_cons_append (t : Text) (more : List Text) (tail : Text) :
    ∃ after, listed (t :: more) ++ tail = t ++ after
      ∧ (after = tail ∨ ∃ others, after = ',' :: ' ' :: others) := by
  cases more with
  | nil => exact ⟨tail, by rw [listed_single], .inl rfl⟩
  | cons u more =>
    exact ⟨',' :: ' ' :: (listed (u :: more) ++ tail), by simp [listed_cons_cons], .inr ⟨_, rfl⟩⟩

theorem lengths_flatMap {α : Type} {f : α → Text} {xs : List α} (hpos : ∀ x ∈ xs, 0 < (f x).length) :
    xs.length ≤ (xs.flatMap f).length ∧ ∀ x ∈ xs, (f x).length ≤ (xs.flatMap f).length := by
  induction xs with
  | nil => exact ⟨Nat.le_refl 0, fun _ h => absurd h List.not_mem_nil⟩
  | cons x xs ih =>
    have hlength : ((x :: xs).flatMap f).length = (f x).length + (xs.flatMap f).length := by
      rw [List.flatMap_cons, List.length_append]
    have hx := hpos x List.mem_cons_self
    obtain ⟨hcount, hless⟩ := ih fun y hy => hpos y (List.mem_cons_of_mem x hy)
    refine ⟨by rw [List.length_cons]; omega, fun y hy => ?_⟩
    rcases List.mem_cons.1 hy with rfl | hy
    · omega
    · have hy := hless y hy
      omega

/-- A list is no shorter than its items, and has hardly more of them than characters. -/
theorem lengths_listed (texts : List Text) :
    texts.length ≤ (listed texts).length + 1 ∧ ∀ t ∈ texts, t.length ≤ (listed texts).length := by
  induction texts with
  | nil => exact ⟨Nat.zero_le _, fun _ h => absurd h List.not_mem_nil⟩
  | cons t texts ih =>
    cases texts with
    | nil =>
      rw [listed_single]
      exact ⟨Nat.succ_le_succ (Nat.zero_le _), fun u hu => by rw [List.mem_singleton.1 hu]⟩
    | cons u more =>
      have hlength : (listed (t :: u :: more)).length = t.length + (listed (u :: more)).length + 2 := by
        simp [listed_cons_cons]
        omega
      obtain ⟨hcount, hless⟩ := ih
      refine ⟨by rw [List.length_cons]; omega, fun v hv => ?_⟩
      rcases List.mem_cons.1 hv with rfl | hv
      · omega
      · have hv := hless v hv
        omega

end Printed

/-- What is told of each item by itself, whatever its leaves, is told of the items one by one. -/
theorem Each.forall₂_map {α β : Type} {R : β → α → Prop} {xs : List β} {as : List α}
    {leaves : List Leaf} (h : Each (xs.map fun x a _ => R x a) as leaves) : List.Forall₂ R xs as := by
  induction xs generalizing as leaves with
  | nil =>
    cases h
    exact .nil
  | cons x xs ih =>
    cases h with
    | cons hR hmore => exact .cons hR (ih hmore)

theorem Each.forall₂ {α β : Type} {R : β → α → Prop} {lead : Text} {xs : List β} {as : List α}
    {leaves : List Leaf} (h : Each (withCommas (fun _ x a _ => R x a) lead xs) as leaves) :
    List.Forall₂ R xs as := by
  induction xs generalizing lead as leaves with
  | nil =>
    cases h
    exact .nil
  | cons x xs ih =>
    cases xs with
    | nil =>
      cases h with
      | cons hR hmore =>
        cases hmore
        exact .cons hR .nil
    | cons y ys =>
      cases h with
      | cons hR hmore =>
        obtain ⟨_, _, -, hR, -⟩ := hR
        exact .cons hR (ih hmore)

theorem eq_map_of_forall₂ {α β : Type} {f : β → α} {xs : List β} {as : List α}
    (h : List.Forall₂ (fun x a => a = f x) xs as) : as = xs.map f := by
  induction h with
  | nil => rfl
  | cons hone _ ih => rw [hone, ih, List.map_cons]

theorem forall₂_filterMap_id {α β : Type} {R : β → α → Prop} {xs : List β} {as : List (Option α)}
    (h : List.Forall₂ (fun x a => ∃ b, a = some b ∧ R x b) xs as) :
    List.Forall₂ R xs (as.filterMap id) := by
  induction h with
  | nil => exact .nil
  | cons hone _ ih =>
    obtain ⟨b, rfl, hR⟩ := hone
    exact .cons hR ih

/-- What holds of the end of a list and of a comma holds of what follows an item. -/
theorem behind_item {P : Text → Prop} {tail after : Text} (htail : P tail)
    (hcomma : ∀ more, P (',' :: ' ' :: more))
    (h : after = tail ∨ ∃ more, after = ',' :: ' ' :: more) : P after := by
  obtain rfl | ⟨more, rfl⟩ := h
  · exact htail
  · exact hcomma more

/-- A reader reads items of a list, each with its text, before a comma or the end of the list; none
begins with the mark that ends the list. -/
structure ReadsItems {α β : Type} (item : Parse α) (text : β → Text) (close : Char) (tail : Text)
    (xs : List β) (Q : Text → β → α → List Leaf → Prop) : Prop where
  reads : ∀ x ∈ xs, ∀ lead, lead = [] ∨ lead = " ".toList →
    ∀ after, after = tail ∨ (∃ more, after = ',' :: ' ' :: more) →
      Reads item (lead ++ (text x ++ after)) after (Q lead x)
  starts : ∀ x ∈ xs, ∀ lead, lead = [] ∨ lead = " ".toList →
    ∀ after, after = tail ∨ (∃ more, after = ',' :: ' ' :: more) →
      Next (startsMark close) (lead ++ (text x ++ after)) false

namespace Reads

open Parse Printed

section Commas

variable {α β : Type} {t lead word rest more tail : Text} {close : Char} {bound : Nat}

theorem commaList_nil {item : Parse α} (hs : Starts t .mark lead (close :: more) rest)
    (hbound : 0 < bound) :
    Reads (commaList bound close item) t (more ++ rest) fun as leaves =>
      as = [] ∧ Cut leaves [.plain lead, .plain [close]] := by
  have hstop : Next (startsMark close) t true :=
    ⟨_, _, _, _, hs, fun _ _ => by simp⟩
  unfold Parse.commaList
  refine (manyUntil (.stop hstop) hbound).bind fun as leaves heach => ?_
  cases heach
  refine (cut hs).bind fun _ leaves hcut => pure ⟨rfl, ?_⟩
  rwa [List.append_nil]

theorem commaList_cons {item : Parse α} {text : β → Text} {Q : Text → β → α → List Leaf → Prop}
    {x : β} {xs : List β} {lead' : Text} (hitems : ReadsItems item text close tail (x :: xs) Q)
    (hlead : lead = [] ∨ lead = " ".toList) (hclose : close ≠ ',')
    (hs : Starts tail .mark lead' (close :: more) rest) (hbound : xs.length + 1 < bound) :
    Reads (commaList bound close item) (lead ++ (listed ((x :: xs).map text) ++ tail)) (more ++ rest)
      fun as leaves => ∃ items closing, leaves = items ++ closing
        ∧ Each (withCommas Q lead (x :: xs)) as items ∧ Cut closing [.plain lead', .plain [close]] := by
  have hstop : Next (startsMark close) tail true :=
    ⟨_, _, _, _, hs, fun _ _ => by simp⟩
  have hnone : Next (isMark ",") tail false :=
    ⟨_, _, _, _, hs, fun _ _ => by simp [hclose]⟩
  unfold Parse.commaList
  have hrun : Run (startsMark close)
      (do
        let a ← item
        if !(← acceptMark ",") then
          if !startsMark close (← peek) then stuck
        return a)
      (lead ++ (listed ((x :: xs).map text) ++ tail)) (withCommas Q lead (x :: xs)) tail := by
    induction xs generalizing x lead with
    | nil =>
      rw [List.map_singleton, listed_single]
      have hitem := hitems.reads x List.mem_cons_self lead hlead tail (.inl rfl)
      refine .item (hitems.starts x List.mem_cons_self lead hlead tail (.inl rfl))
        (hitem.bind fun a leaves hQ => ?_) (.stop hstop)
      refine accept_false_bind hnone ?_
      refine peek_bind hs fun line place => ?_
      rw [if_neg (by simp)]
      exact pure (by rwa [List.append_nil])
    | cons y ys ih =>
      have hcomma : Starts (',' :: ' ' :: (listed ((y :: ys).map text) ++ tail)) .mark [] [',']
          (' ' :: (listed ((y :: ys).map text) ++ tail)) :=
        .lone blank_nil (by decide) _
      have hitem := hitems.reads x List.mem_cons_self lead hlead
        (',' :: ' ' :: (listed ((y :: ys).map text) ++ tail)) (.inr ⟨_, rfl⟩)
      have hrest := ih
        ⟨fun z hz => hitems.reads z (List.mem_cons_of_mem x hz),
          fun z hz => hitems.starts z (List.mem_cons_of_mem x hz)⟩
        (.inr rfl) (Nat.lt_of_succ_lt hbound)
      rw [List.map_cons, List.map_cons, listed_cons_cons, List.append_assoc, List.cons_append,
        List.cons_append]
      refine .item (hitems.starts x List.mem_cons_self lead hlead _ (.inr ⟨_, rfl⟩))
        (hitem.bind fun a leaves hQ => ?_) hrest
      refine accept_true_bind hcomma (by simp) (by decide) fun leaves' hcut => ?_
      exact pure ⟨leaves, leaves', by rw [List.append_nil], hQ, hcut⟩
  refine (manyUntil hrun (by rw [length_withCommas]; exact hbound)).bind fun as items heach => ?_
  refine (cut hs).bind fun _ closing hcut => pure ⟨items, closing, ?_, heach, hcut⟩
  rw [List.append_nil]

/-- A list of items is read item by item. -/
theorem commaList {item : Parse α} {text : β → Text} {R : β → α → Prop} {xs : List β} {lead' : Text}
    (hitems : ReadsItems item text close tail xs fun _ x a _ => R x a)
    (hlead : lead = [] ∨ lead = " ".toList) (hclose : close ≠ ',')
    (hs : Starts tail .mark lead' (close :: more) rest) (hbound : xs.length < bound) :
    Reads (commaList bound close item) (lead ++ (listed (xs.map text) ++ tail)) (more ++ rest)
      fun as _ => List.Forall₂ R xs as := by
  cases xs with
  | nil =>
    refine (commaList_nil (hs.behind (blank_lead hlead)) hbound).mono fun as _ h => ?_
    rw [h.1]
    exact .nil
  | cons x xs =>
    refine (commaList_cons hitems hlead hclose hs hbound).mono fun as _ h => ?_
    obtain ⟨_, _, -, heach, -⟩ := h
    exact heach.forall₂

theorem sparseList {item : Parse α} {text : β → Text} {R : β → α → Prop} {xs : List β} {lead' : Text}
    (hitems : ReadsItems item text close tail xs fun _ x a _ => R x a)
    (hfirst : ∀ x ∈ xs, ∀ lead, lead = [] ∨ lead = " ".toList →
      ∀ after, after = tail ∨ (∃ more, after = ',' :: ' ' :: more) →
        Next (fun t => isMark "," t || startsMark close t) (lead ++ (text x ++ after)) false)
    (hlead : lead = [] ∨ lead = " ".toList) (hclose : close ≠ ',')
    (hs : Starts tail .mark lead' (close :: more) rest) (hbound : xs.length < bound) :
    Reads (sparseList bound close item) (lead ++ (listed (xs.map text) ++ tail)) (more ++ rest)
      fun as _ => List.Forall₂ R xs as := by
  unfold Parse.sparseList
  have hsome : ReadsItems
      (do
        let t ← peek
        if isMark "," t || startsMark close t then return none
        else some <$> item)
      text close tail xs fun _ x a _ => ∃ b, a = some b ∧ R x b := by
    refine ⟨fun x hx lead hlead after hafter => ?_, hitems.starts⟩
    obtain ⟨kind, lead', word, rest, hs, htest⟩ := hfirst x hx lead hlead after hafter
    refine peek_bind hs fun line place => ?_
    rw [if_neg (ne_true_of_eq_false (htest line place))]
    exact map ((hitems.reads x hx lead hlead after hafter).mono fun a _ hR => ⟨a, rfl, hR⟩)
  exact (commaList hsome hlead hclose hs hbound).bind fun as _ hall => pure (forall₂_filterMap_id hall)

end Commas

end Reads

end NestClient.TypeScript
