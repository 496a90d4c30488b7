import NestClient.Proofs.Text.Occurs
import NestClient.Text.Template

/-! Holes of a text that is put together.

* `fill_of_no_hole`: a text without holes is left as it is.
* `fill_append_cons`: no hole lies across a character, unless the text before it leaves one open that
  the text behind it closes. -/

namespace NestClient.Template

def opening : Text := "$\x7b".toList

/-- Whether the end of the text lies in a hole, when its start does or does not. -/
def endsInside : Bool → Text → Bool
  | inside, [] => inside
  | false, '$' :: '{' :: rest => endsInside true rest
  | false, _ :: rest => endsInside false rest
  | true, c :: rest => if c = '}' then endsInside false rest else endsInside true rest

/-- The pieces as they are written when some holes are filled. -/
def filledParts (value : Text → Option Text) (pieces : List TemplatePart) : Text :=
  pieces.flatMap fun part =>
    match part with
    | .char c => [c]
    | .hole inner => (value inner).getD part.written

variable {value : Text → Option Text} {s t : Text}

theorem fill_eq (value : Text → Option Text) (t : Text) :
    fill value t = filledParts value (partsFrom none t) := rfl

theorem filledParts_append (pieces more : List TemplatePart) :
    filledParts value (pieces ++ more) = filledParts value pieces ++ filledParts value more :=
  List.flatMap_append

theorem filledParts_cons (part : TemplatePart) (more : List TemplatePart) :
    filledParts value (part :: more) = filledParts value [part] ++ filledParts value more :=
  filledParts_append [part] more

theorem filledParts_chars (t : Text) : filledParts value (t.map .char) = t := by
  induction t with
  | nil => rfl
  | cons c rest ih => exact congrArg (c :: ·) ih

theorem partsFrom_of_no_hole (h : ¬opening <:+: t) : partsFrom none t = t.map .char := by
  induction t with
  | nil => rfl
  | cons c rest ih =>
    have hrest : ¬opening <:+: rest := fun hin => h (hin.trans (List.suffix_cons c rest).isInfix)
    rw [partsFrom, ih hrest, List.map_cons]
    rintro more rfl rfl
    exact h ⟨[], more, rfl⟩

theorem fill_of_no_hole (h : ¬opening <:+: t) : fill value t = t := by
  rw [fill_eq, partsFrom_of_no_hole h, filledParts_chars]

theorem partsFrom_of_not_closed (h : '}' ∉ t) (inner : Text) :
    partsFrom (some inner) t = ('$' :: '{' :: (inner.reverse ++ t)).map .char := by
  induction t generalizing inner with
  | nil => rw [partsFrom, List.append_nil]
  | cons c rest ih =>
    have hc : c ≠ '}' := fun heq => h (heq ▸ List.mem_cons_self)
    rw [partsFrom, if_neg hc, ih fun hrest => h (List.mem_cons_of_mem c hrest)]
    simp

theorem endsInside_of_not_open {c : Char} {rest : Text} (h : ∀ more, c = '$' → rest = '{' :: more → False) :
    endsInside false (c :: rest) = endsInside false rest := by
  rw [endsInside]
  exact h

/-- Reading begins anew at a character that opens no hole, if none is open or none gets closed. -/
theorem filledParts_append_cons {c : Char} (hc : c ≠ '{') (ht : ¬opening <:+: c :: t) (inner : Option Text)
    (h : endsInside inner.isSome s = false ∨ '}' ∉ c :: t) :
    filledParts value (partsFrom inner (s ++ c :: t))
      = filledParts value (partsFrom inner s) ++ c :: t := by
  fun_induction partsFrom inner s with
  | case1 =>
    rw [List.nil_append, partsFrom_of_no_hole ht, filledParts_chars]
    rfl
  | case2 rest ih => exact ih h
  | case3 d rest hopen ih =>
    have hstill : ∀ more, d = '$' → rest ++ c :: t = '{' :: more → False := by
      intro more hd hmore
      cases rest with
      | nil => exact hc (List.cons.inj hmore).1
      | cons e rest => exact hopen rest hd (by rw [(List.cons.inj hmore).1])
    rw [List.cons_append, partsFrom.eq_3 _ _ hstill]
    exact congrArg (d :: ·) (ih (by rwa [Option.isSome_none, endsInside_of_not_open hopen] at h))
  | case4 inner =>
    have hclosed : '}' ∉ c :: t := h.resolve_left (by simp [endsInside])
    rw [List.nil_append, partsFrom_of_not_closed hclosed, filledParts_chars, filledParts_chars]
    rfl
  | case5 inner rest ih =>
    have hrest := ih (by rwa [Option.isSome_some, endsInside, if_pos rfl] at h)
    rw [List.cons_append, partsFrom, if_pos rfl, filledParts_cons, hrest, filledParts_cons _ (partsFrom _ _),
      List.append_assoc]
  | case6 inner d rest hd ih =>
    rw [List.cons_append, partsFrom, if_neg hd]
    exact ih (by rwa [Option.isSome_some, endsInside, if_neg hd] at h)

/-- Of a text that is filled, what follows such a character stays as it is. -/
theorem fill_append_cons {c : Char} (hc : c ≠ '{') (ht : ¬opening <:+: c :: t)
    (h : endsInside false s = false ∨ '}' ∉ c :: t) : fill value (s ++ c :: t) = fill value s ++ c :: t :=
  filledParts_append_cons hc ht none h

/-! ## A single hole -/

theorem partsFrom_close {inner : Text} (h : '}' ∉ inner) (before t : Text) :
    partsFrom (some before) (inner ++ '}' :: t) = .hole (before.reverse ++ inner) :: partsFrom none t := by
  induction inner generalizing before with
  | nil => rw [List.nil_append, partsFrom, if_pos rfl, List.append_nil]
  | cons c inner ih =>
    have hc : c ≠ '}' := fun heq => h (heq ▸ List.mem_cons_self)
    rw [List.cons_append, partsFrom, if_neg hc, ih fun hin => h (List.mem_cons_of_mem c hin),
      List.reverse_cons, List.append_assoc, List.singleton_append]

theorem fill_hole {inner filling : Text} (hinner : '}' ∉ inner) (hvalue : value inner = some filling)
    (ht : ¬opening <:+: t) : fill value (opening ++ inner ++ '}' :: t) = filling ++ t := by
  have hopen : opening ++ inner ++ '}' :: t = '$' :: '{' :: (inner ++ '}' :: t) := by
    rw [List.append_assoc]
    rfl
  have hfilled : filledParts value [.hole inner] = filling := by
    simp [filledParts, hvalue]
  rw [fill_eq, hopen, partsFrom, partsFrom_close hinner, filledParts_cons, partsFrom_of_no_hole ht,
    filledParts_chars]
  exact congrArg (· ++ t) hfilled

/-! ## Whether a hole is open -/

variable {inside : Bool}

theorem endsInside_cons_of_inert {c : Char} (hopen : c ≠ '$') (hclose : c ≠ '}') (rest : Text) :
    endsInside inside (c :: rest) = endsInside inside rest := by
  cases inside with
  | false => exact endsInside_of_not_open fun _ hc _ => hopen hc
  | true => rw [endsInside, if_neg hclose]

theorem endsInside_inert_append (h : ∀ c ∈ s, c ≠ '$' ∧ c ≠ '}') (t : Text) :
    endsInside inside (s ++ t) = endsInside inside t := by
  induction s with
  | nil => rfl
  | cons c rest ih =>
    have hc := h c List.mem_cons_self
    rw [List.cons_append, endsInside_cons_of_inert hc.1 hc.2,
      ih fun d hd => h d (List.mem_cons_of_mem c hd)]

theorem endsInside_of_inert (h : ∀ c ∈ t, c ≠ '$' ∧ c ≠ '}') : endsInside inside t = inside := by
  rw [← List.append_nil t, endsInside_inert_append h, endsInside]

theorem endsInside_append (h : t.head? ≠ some '{') :
    endsInside inside (s ++ t) = endsInside (endsInside inside s) t := by
  fun_induction endsInside inside s with
  | case1 inside => rfl
  | case2 rest ih => exact ih
  | case3 d rest hopen ih =>
    rw [List.cons_append, endsInside_of_not_open, ih]
    intro more hd hmore
    cases rest with
    | nil => exact h (by rw [← List.nil_append t, hmore]; rfl)
    | cons e rest => exact hopen rest hd (by rw [(List.cons.inj hmore).1])
  | case4 rest ih => rwa [List.cons_append, endsInside, if_pos rfl]
  | case5 d rest hd ih => rwa [List.cons_append, endsInside, if_neg hd]

end NestClient.Template
