import NestClient.Proofs.Path.Names
import NestClient.Proofs.Text.Trim
import NestClient.Route.Internal

/-! The segments of a route, and what joining, the internal keys and the prefix of all routes make of
them.

* `segments_join`: joining fragments puts their segments in a row.
* `segments_dropInternal`: the segments left are trimmed, but it is untrimmed that they are looked at.
* `segments_dropPrefix`: a prefix takes all of its segments away from the front, or none. -/

namespace NestClient

namespace Route

variable {t lead : Text} {keys : List Text}

/-! ## Segments -/

theorem segments_nil : segments [] = [] := rfl

theorem segments_slash_cons (t : Text) : segments ('/' :: t) = segments t := by
  rw [segments, Text.split, if_pos rfl, List.filter_cons_of_neg (by decide)]
  rfl

theorem segments_append_cons (s t : Text) : segments (s ++ '/' :: t) = segments s ++ segments t := by
  rw [segments, Text.split_append_cons, List.filter_append]
  rfl

theorem segments_of_not_mem (h : '/' ∉ t) : segments t = if t.isEmpty then [] else [t] := by
  rw [segments, Text.split_of_not_mem h]
  cases t <;> rfl

theorem segments_append_of_slashes (h : ∀ c ∈ lead, c = '/') (t : Text) :
    segments (lead ++ t) = segments t := by
  induction lead with
  | nil => rfl
  | cons c lead ih =>
    obtain rfl : c = '/' := h c List.mem_cons_self
    rw [List.cons_append, segments_slash_cons, ih fun d hd => h d (List.mem_cons_of_mem _ hd)]

theorem segments_slashes_append (h : ∀ c ∈ lead, c = '/') (t : Text) :
    segments (t ++ lead) = segments t := by
  cases lead with
  | nil => rw [List.append_nil]
  | cons c lead =>
    obtain rfl : c = '/' := h c List.mem_cons_self
    have hrest := segments_append_of_slashes (fun d hd => h d (List.mem_cons_of_mem _ hd)) []
    rw [List.append_nil] at hrest
    rw [segments_append_cons, hrest, segments_nil, List.append_nil]

theorem segments_trimSlashes (t : Text) : segments (trimSlashes t) = segments t := by
  obtain ⟨front, back, ht, hfront, hback⟩ := Text.exists_trimBy (· = '/') t
  conv => rhs; rw [ht]
  rw [segments_append_of_slashes (fun c hc => of_decide_eq_true (hfront c hc)),
    segments_slashes_append (fun c hc => of_decide_eq_true (hback c hc))]
  rfl

/-! ## Joining -/

/-- Collapsing slashes changes neither the first piece nor what the others hold. -/
theorem split_collapse (t : Text) :
    (Text.split '/' (collapse t)).head? = (Text.split '/' t).head? ∧
      (Text.split '/' (collapse t)).tail.filter (fun s => !s.isEmpty)
        = (Text.split '/' t).tail.filter (fun s => !s.isEmpty) := by
  induction t with
  | nil => exact ⟨rfl, rfl⟩
  | cons c rest ih =>
    obtain ⟨first, more, hsplit⟩ := List.exists_cons_of_ne_nil (Text.split_ne_nil '/' (collapse rest))
    obtain ⟨first', more', hsplit'⟩ := List.exists_cons_of_ne_nil (Text.split_ne_nil '/' rest)
    rw [hsplit, hsplit'] at ih
    obtain ⟨hhead, htail⟩ := ih
    obtain rfl : first = first' := Option.some.inj hhead
    rw [List.tail_cons, List.tail_cons] at htail
    rw [collapse]
    split
    next hslashes =>
      rw [Bool.and_eq_true, decide_eq_true_eq, decide_eq_true_eq] at hslashes
      obtain ⟨rfl, hrest⟩ := hslashes
      -- the piece between the two slashes is empty
      obtain rfl : first = [] := by
        cases rest with
        | nil => simp at hrest
        | cons d rest =>
          obtain rfl : d = '/' := Option.some.inj hrest
          rw [Text.split, if_pos rfl] at hsplit'
          exact (List.cons.inj hsplit').1.symm
      rw [hsplit, Text.split, if_pos rfl, hsplit', List.tail_cons, List.tail_cons, htail,
        List.filter_cons_of_neg (by decide)]
      exact ⟨rfl, rfl⟩
    next =>
      rw [Text.split, Text.split, hsplit, hsplit']
      split
      · rw [List.tail_cons, List.tail_cons, List.filter_cons, List.filter_cons, htail]
        exact ⟨rfl, rfl⟩
      · exact ⟨rfl, htail⟩

theorem segments_collapse (t : Text) : segments (collapse t) = segments t := by
  obtain ⟨hhead, htail⟩ := split_collapse t
  obtain ⟨first, more, hsplit⟩ := List.exists_cons_of_ne_nil (Text.split_ne_nil '/' (collapse t))
  obtain ⟨first', more', hsplit'⟩ := List.exists_cons_of_ne_nil (Text.split_ne_nil '/' t)
  rw [hsplit, hsplit'] at hhead htail
  obtain rfl : first = first' := Option.some.inj hhead
  rw [List.tail_cons, List.tail_cons] at htail
  rw [segments, segments, hsplit, hsplit', List.filter_cons, List.filter_cons, htail]

theorem segments_textJoin (parts : List Text) :
    segments (Text.join ['/'] parts) = parts.flatMap segments := by
  induction parts with
  | nil => rfl
  | cons part more ih =>
    cases more with
    | nil => simp [Text.join, List.intercalate]
    | cons second more =>
      have hjoin : Text.join ['/'] (part :: second :: more)
          = part ++ '/' :: Text.join ['/'] (second :: more) := by
        simp [Text.join, List.intercalate]
      rw [hjoin, segments_append_cons, ih]
      rfl

theorem segments_join (parts : List Text) :
    segments (join parts) = parts.flatMap fun part => segments (Text.trim part) := by
  rw [join, segments_trimSlashes, segments_collapse, segments_textJoin]
  induction parts with
  | nil => rfl
  | cons part more ih =>
    rw [List.map_cons, List.flatMap_cons, ← ih]
    cases hpart : Text.trim part with
    | nil => rfl
    | cons c rest => rw [List.filter_cons_of_pos (by rfl), List.flatMap_cons]

/-! ## Internal parts -/

/-- The segments of a route as they are looked at for internal placeholders: its holes that name a key
are empty, and the blanks around a segment are still there. -/
def writtenSegments (route : Text) (keys : List Text) : List Text :=
  Text.split '/'
    (Template.fill (fun inner => if namesInternal keys inner then some [] else none) route)

theorem mem_segments_dropInternal {route segment : Text} :
    segment ∈ segments (dropInternal route keys) ↔ segment ≠ [] ∧
      ∃ s ∈ writtenSegments route keys, isInternalSegment keys s = false ∧ Text.trim s = segment := by
  have hplain : ∀ s ∈ writtenSegments route keys, segments (Text.trim s)
      = if (Text.trim s).isEmpty then [] else [Text.trim s] := fun s hs =>
    segments_of_not_mem fun hslash => Text.not_mem_of_mem_split hs (Text.mem_of_mem_trim hslash)
  rw [dropInternal, segments_join, List.mem_flatMap]
  constructor
  · rintro ⟨s, hs, hsegment⟩
    obtain ⟨hs, hkept⟩ := List.mem_filter.1 hs
    rw [hplain s hs] at hsegment
    split at hsegment
    · simp at hsegment
    next hne =>
      rw [List.mem_singleton] at hsegment
      rw [List.isEmpty_iff] at hne
      exact ⟨hsegment ▸ hne, s, hs, by simpa using hkept, hsegment.symm⟩
  · rintro ⟨hne, s, hs, hkept, rfl⟩
    refine ⟨s, List.mem_filter.2 ⟨hs, by rw [hkept]; rfl⟩, ?_⟩
    rw [hplain s hs, if_neg (by simpa using hne)]
    exact List.mem_singleton.2 rfl

/-! ## The prefix of all routes -/

theorem segments_dropPrefix (route lead : Text) : ∃ front,
    segments route = front ++ segments (dropPrefix route lead) ∧
      (front = [] ∨ front = segments lead) := by
  unfold dropPrefix
  dsimp only
  rw [segments_trimSlashes]
  split
  next hlead =>
    rw [Bool.and_eq_true, Bool.or_eq_true, decide_eq_true_eq, List.isPrefixOf_iff_prefix] at hlead
    refine ⟨segments lead, ?_, .inr rfl⟩
    rw [← segments_trimSlashes lead]
    rcases hlead.2 with hwhole | ⟨below, hbelow⟩
    · rw [← hwhole, List.drop_length, segments_nil, List.append_nil]
    · rw [← hbelow, List.append_assoc, List.drop_left, List.singleton_append, segments_append_cons,
        segments_slash_cons]
  next => exact ⟨[], rfl, .inl rfl⟩

end Route

end NestClient
