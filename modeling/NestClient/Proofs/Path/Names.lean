import NestClient.Path.Basic
import NestClient.Proofs.Text.Affix

/-! The names of a path: what reading a path gives, and what comes back from a path as written. -/

namespace NestClient

namespace Text

theorem split_append_cons (sep : Char) (s t : Text) :
    split sep (s ++ sep :: t) = split sep s ++ split sep t := by
  induction s with
  | nil => simp [split]
  | cons c s ih =>
    obtain ⟨piece, more, hsplit⟩ := List.exists_cons_of_ne_nil (split_ne_nil sep s)
    rw [List.cons_append, split, split, ih, hsplit]
    split <;> rfl

theorem split_append {sep : Char} {piece : Text} (h : sep ∉ piece) (rest : Text) :
    split sep (piece ++ sep :: rest) = piece :: split sep rest := by
  rw [split_append_cons, split_of_not_mem h, List.singleton_append]

theorem join_cons_cons (sep first second : Text) (more : List Text) :
    join sep (first :: second :: more) = first ++ (sep ++ join sep (second :: more)) := by
  simp [join, List.intercalate]

theorem join_singleton (sep piece : Text) : join sep [piece] = piece := by
  simp [join, List.intercalate]

theorem join_append {sep : Text} {front back : List Text} (hfront : front ≠ []) (hback : back ≠ []) :
    join sep (front ++ back) = join sep front ++ (sep ++ join sep back) := by
  induction front with
  | nil => exact absurd rfl hfront
  | cons first more ih =>
    cases more with
    | nil =>
      obtain ⟨second, rest, rfl⟩ := List.exists_cons_of_ne_nil hback
      rw [List.singleton_append, join_cons_cons, join_singleton]
    | cons second more =>
      have hmore := ih (List.cons_ne_nil second more)
      rw [List.cons_append] at hmore
      rw [List.cons_append, List.cons_append, join_cons_cons, hmore, join_cons_cons, List.append_assoc,
        List.append_assoc]

theorem join_concat {names : List Text} (hne : names ≠ []) (last : Text) :
    join ['/'] (names ++ [last]) = join ['/'] names ++ '/' :: last := by
  rw [join_append hne (List.cons_ne_nil last []), join_singleton, List.singleton_append]

/-- The characters of a joined text are those of its parts and of the separators between them. -/
theorem count_join {parts : List Text} (hne : parts ≠ []) (sep : Text) (c : Char) :
    (join sep parts).count c + sep.count c = parts.length * sep.count c + parts.flatten.count c := by
  induction parts with
  | nil => exact absurd rfl hne
  | cons first more ih =>
    cases more with
    | nil =>
      rw [join_singleton, List.flatten_cons, List.flatten_nil, List.append_nil, List.length_singleton]
      omega
    | cons second more =>
      have hmore := ih (List.cons_ne_nil second more)
      rw [join_cons_cons, List.count_append, List.count_append, List.flatten_cons, List.count_append,
        List.length_cons, Nat.succ_mul]
      omega

theorem not_mem_join {sep : Text} {c : Char} (hsep : c ∉ sep) {parts : List Text}
    (h : ∀ part ∈ parts, c ∉ part) : c ∉ join sep parts := by
  rcases eq_or_ne parts [] with rfl | hne
  · exact List.not_mem_nil
  have hparts : c ∉ parts.flatten := fun hc =>
    have ⟨part, hpart, hmem⟩ := List.mem_flatten.1 hc
    h part hpart hmem
  have hcount := count_join hne sep c
  rw [List.count_eq_zero.2 hsep, List.count_eq_zero.2 hparts] at hcount
  exact List.count_eq_zero.1 hcount

theorem getLast?_join_concat {last : Text} (hlast : last ≠ []) (sep : Text) (parts : List Text) :
    (join sep (parts ++ [last])).getLast? = last.getLast? := by
  obtain ⟨c, hc⟩ := Option.ne_none_iff_exists'.1 (mt List.getLast?_eq_none_iff.1 hlast)
  cases parts with
  | nil => rw [List.nil_append, join_singleton]
  | cons first more =>
    rw [join_append (List.cons_ne_nil first more) (List.cons_ne_nil last []), join_singleton,
      List.getLast?_append, List.getLast?_append, hc]
    rfl

theorem split_join {sep : Char} {pieces : List Text} (hne : pieces ≠ [])
    (h : ∀ piece ∈ pieces, sep ∉ piece) : split sep (join [sep] pieces) = pieces := by
  induction pieces with
  | nil => exact absurd rfl hne
  | cons first more ih =>
    cases more with
    | nil =>
      rw [join_singleton]
      exact split_of_not_mem (h first List.mem_cons_self)
    | cons second more =>
      rw [join_cons_cons, List.singleton_append, split_append (h first List.mem_cons_self),
        ih (by simp) fun piece hp => h piece (List.mem_cons_of_mem _ hp)]

theorem infix_of_mem_split {sep : Char} {t piece : Text} (h : piece ∈ split sep t) : piece <:+: t := by
  obtain ⟨before, after, hjoin, -⟩ := mem_join h
  rw [join_split] at hjoin
  exact ⟨before, after, by rw [hjoin, List.append_assoc]⟩

theorem not_mem_of_mem_split {sep : Char} {t piece : Text} (h : piece ∈ split sep t) :
    sep ∉ piece := by
  induction t generalizing piece with
  | nil =>
    rw [split, List.mem_singleton] at h
    simp [h]
  | cons c rest ih =>
    rw [split] at h
    split at h
    · rcases List.mem_cons.1 h with rfl | h
      · simp
      · exact ih h
    · next hc =>
      cases hrest : split sep rest with
      | nil =>
        rw [hrest, lengthenHead, List.mem_singleton] at h
        simpa [h] using fun heq => hc heq.symm
      | cons first more =>
        rw [hrest, lengthenHead, List.mem_cons] at h
        rcases h with rfl | h
        · have hfirst := ih (hrest ▸ List.mem_cons_self)
          simpa [hfirst] using fun heq => hc heq.symm
        · exact ih (hrest ▸ List.mem_cons_of_mem _ h)

end Text

namespace Path

/-- A name that reading a path can give. -/
structure IsName (name : Text) : Prop where
  ne_nil : name ≠ []
  ne_dot : name ≠ ['.']
  slash : '/' ∉ name

theorem isName_of_mem_namesOf {t name : Text} (h : name ∈ namesOf t) : IsName name := by
  obtain ⟨hsplit, hkept⟩ := List.mem_filter.1 h
  rw [Bool.and_eq_true, decide_eq_true_eq, Bool.not_eq_true', List.isEmpty_eq_false_iff] at hkept
  exact ⟨hkept.1, hkept.2, Text.not_mem_of_mem_split hsplit⟩

theorem append_here (root : Path) (names : List Text) :
    root.append ⟨.here, names⟩ = ⟨root.anchor, root.names ++ names⟩ := rfl

/-- What is left below a path are the names after its own. -/
theorem relativeTo?_eq_some {p base below : Path} (h : p.relativeTo? base = some below) :
    ∃ rest, p = ⟨base.anchor, base.names ++ rest⟩ ∧ below = ⟨.here, rest⟩ := by
  have hnames : ∀ {rest : List Text}, base.names.isPrefixOf? p.names = some rest →
      p.anchor = base.anchor → p = ⟨base.anchor, base.names ++ rest⟩ := by
    intro rest hrest hanchor
    rw [List.isPrefixOf?_eq_some_iff_append_eq.1 hrest, ← hanchor]
  unfold relativeTo? at h
  split at h
  next hbase hanchor =>
    obtain ⟨rest, hrest, rfl⟩ := Option.map_eq_some_iff.1 h
    exact ⟨rest, hnames hrest (hanchor.trans hbase.symm), rfl⟩
  next => cases h
  next =>
    split at h
    next hanchor =>
      obtain ⟨rest, hrest, rfl⟩ := Option.map_eq_some_iff.1 h
      exact ⟨rest, hnames hrest hanchor.symm, rfl⟩
    next => cases h

theorem namesOf_join {names : List Text} (h : ∀ n ∈ names, IsName n) :
    namesOf (Text.join ['/'] names) = names := by
  by_cases hne : names = []
  · subst hne
    rfl
  · rw [namesOf, Text.split_join hne fun n hn => (h n hn).slash, List.filter_eq_self]
    intro n hn
    simp [(h n hn).ne_nil, (h n hn).ne_dot]

theorem namesOf_cons_slash (t : Text) : namesOf ('/' :: t) = namesOf t := by
  simp [namesOf, Text.split]

theorem namesOf_append_cons (s t : Text) : namesOf (s ++ '/' :: t) = namesOf s ++ namesOf t := by
  rw [namesOf, Text.split_append_cons, List.filter_append]
  rfl

theorem head?_join {names : List Text} (h : ∀ n ∈ names, IsName n) :
    (Text.join ['/'] names).head? ≠ some '/' := by
  cases names with
  | nil => simp [Text.join, List.intercalate]
  | cons first more =>
    have hfirst := h first List.mem_cons_self
    obtain ⟨c, rest, rfl⟩ := List.exists_cons_of_ne_nil hfirst.ne_nil
    have hc : c ≠ '/' := fun e => hfirst.slash (by simp [e])
    cases more with
    | nil => simpa [Text.join, List.intercalate] using hc
    | cons second more =>
      rw [Text.join_cons_cons, List.cons_append, List.head?_cons]
      simpa using hc

theorem ofText_join {names : List Text} (h : ∀ n ∈ names, IsName n) :
    ofText (Text.join ['/'] names) = ⟨.here, names⟩ := by
  have hanchor : Anchor.ofText (Text.join ['/'] names) = .here := by
    have hhead := head?_join h
    unfold Anchor.ofText
    generalize Text.join ['/'] names = t at hhead
    cases t with
    | nil => rfl
    | cons c rest =>
      have hc : ¬c = '/' := by simpa using hhead
      rw [List.takeWhile_cons_of_neg (by simpa using hc)]
      rfl
  rw [ofText, hanchor, namesOf_join h]

/-- Paths from the root are told apart by how they are written. -/
theorem text_root_injective {names names' : List Text} (h : ∀ n ∈ names, IsName n)
    (h' : ∀ n ∈ names', IsName n) (heq : (⟨.root, names⟩ : Path).text = (⟨.root, names'⟩ : Path).text) :
    names = names' := by
  have htext : ∀ names : List Text, (⟨.root, names⟩ : Path).text = '/' :: Text.join ['/'] names := by
    intro names
    rfl
  rw [htext, htext] at heq
  have hnames := congrArg namesOf heq
  rwa [namesOf_cons_slash, namesOf_cons_slash, namesOf_join h, namesOf_join h'] at hnames

/-- The name that a project has for a file. -/
def nameFrom (p root : Path) : Text := ((p.relativeTo? root).map Path.text).getD []

theorem namesOf_text {names : List Text} (h : ∀ n ∈ names, IsName n) :
    namesOf (⟨.here, names⟩ : Path).text = names := by
  unfold text
  split
  next hnil =>
    rw [Bool.and_eq_true, List.isEmpty_iff] at hnil
    have hnames : names = [] := hnil.2
    rw [hnames]
    rfl
  next => exact namesOf_join h

theorem nameFrom_injective {root p q : Path} (hp : (p.relativeTo? root).isSome)
    (hq : (q.relativeTo? root).isSome) (hpnames : ∀ n ∈ p.names, IsName n)
    (hqnames : ∀ n ∈ q.names, IsName n) (h : p.nameFrom root = q.nameFrom root) : p = q := by
  obtain ⟨below, hbelow⟩ := Option.isSome_iff_exists.1 hp
  obtain ⟨below', hbelow'⟩ := Option.isSome_iff_exists.1 hq
  obtain ⟨rest, rfl, rfl⟩ := relativeTo?_eq_some hbelow
  obtain ⟨rest', rfl, rfl⟩ := relativeTo?_eq_some hbelow'
  rw [nameFrom, nameFrom, hbelow, hbelow'] at h
  have hrest := namesOf_text fun n hn => hpnames n (List.mem_append_right _ hn)
  have hrest' := namesOf_text fun n hn => hqnames n (List.mem_append_right _ hn)
  have hnames : rest = rest' := by
    rw [← hrest, ← hrest']
    exact congrArg namesOf h
  rw [hnames]

end Path

end NestClient
