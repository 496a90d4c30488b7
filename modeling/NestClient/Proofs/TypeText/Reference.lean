import NestClient.Proofs.Text.Trim
import NestClient.TypeText.Reference
import NestClient.TypeScript.Reader

/-! References in the text of a type, and how a text is cut at them.

* `readReference?_eq_some_iff`: the grammar of a reference.
* `pieces_reference`: a reference that stands in a text is one of its pieces, or the symbol of an
  earlier reference runs into its first word.
* `readReference?_of_references`: a text without references has no suffix that begins with one. -/

namespace NestClient

/-! ## Names -/

theorem Text.isName_iff {t : Text} :
    Text.isName t = true ↔ ∃ c rest, t = c :: rest ∧ isNameStart c = true ∧
      ∀ d ∈ rest, isNameChar d = true := by
  cases t with
  | nil => simp [Text.isName]
  | cons c rest => simp [Text.isName, and_assoc]

theorem Text.isName_append {s t : Text} (hs : Text.isName s = true)
    (ht : ∀ c ∈ t, isNameChar c = true) : Text.isName (s ++ t) = true := by
  obtain ⟨first, rest, rfl, hfirst, hrest⟩ := Text.isName_iff.1 hs
  refine Text.isName_iff.2 ⟨first, rest ++ t, rfl, hfirst, fun c hc => ?_⟩
  exact (List.mem_append.1 hc).elim (hrest c) (ht c)

theorem Text.isNameLine_iff {t : Text} :
    Text.isNameLine t = true ↔
      Text.isName t = true ∨ ∃ name, t = name ++ ['\n'] ∧ Text.isName name = true := by
  rw [Text.isNameLine, Bool.or_eq_true]
  refine or_congr_right ?_
  split
  next name hdrop =>
    rw [Text.dropTail?_eq_some_iff] at hdrop
    refine ⟨fun hname => ⟨name, hdrop, hname⟩, fun ⟨name', ht, hname⟩ => ?_⟩
    rwa [List.append_cancel_right (hdrop.symm.trans ht)]
  next hdrop =>
    refine iff_of_false Bool.false_ne_true fun ⟨name, ht, _⟩ => ?_
    rw [Text.dropTail?_eq_some_iff.2 ht] at hdrop
    cases hdrop

theorem isNameChar_of_isNameStart {c : Char} (h : isNameStart c = true) : isNameChar c = true := by
  simp only [isNameStart, isNameChar, Char.isAlphanum, Bool.or_eq_true] at h ⊢
  rcases h with (h | h) | h
  · exact .inl (.inl (.inl h))
  · exact .inl (.inr h)
  · exact .inr h

theorem toNat_of_isNameChar {c : Char} (h : isNameChar c = true) :
    48 ≤ c.toNat ∧ c.toNat ≤ 122 ∨ c.toNat = 36 := by
  have halnum : c.isAlphanum
      = (decide (65 ≤ c.val ∧ c.val ≤ 90) || (decide (97 ≤ c.val) && decide (c.val ≤ 122))
        || (decide (48 ≤ c.val) && decide (c.val ≤ 57))) := rfl
  simp only [isNameChar, halnum, Bool.or_eq_true, Bool.and_eq_true, decide_eq_true_eq,
    UInt32.le_iff_toNat_le] at h
  rcases h with (((⟨h, h'⟩ | ⟨h, h'⟩) | ⟨h, h'⟩) | rfl) | rfl
  · exact .inl ⟨Nat.le_trans (by decide) h, Nat.le_trans h' (by decide)⟩
  · exact .inl ⟨Nat.le_trans (by decide) h, h'⟩
  · exact .inl ⟨h, Nat.le_trans h' (by decide)⟩
  · exact .inl (by decide)
  · exact .inr rfl

theorem isNameChar_of_mem_name {t : Text} (h : Text.isName t = true) {c : Char} (hc : c ∈ t) :
    isNameChar c = true := by
  obtain ⟨first, rest, rfl, hfirst, hrest⟩ := Text.isName_iff.1 h
  rcases List.mem_cons.1 hc with rfl | hc
  · exact isNameChar_of_isNameStart hfirst
  · exact hrest c hc

namespace TypeText

open TypeScript (reference)

/-! ## The grammar of a reference -/

/-- No name goes on at the start of the text. -/
def EndsName (t : Text) : Prop := ∀ c, t.head? = some c → isNameChar c = false

/-- The text is a reference to a symbol of a module. -/
def IsReference (written module symbol : Text) : Prop :=
  ∃ before opening closing after,
    written = "import(".toList ++ (before ++ opening :: (module ++ closing ::
      (after ++ (").".toList ++ symbol)))) ∧
    (∀ c ∈ before, isBlank c = true) ∧ isQuote opening = true ∧
    module ≠ [] ∧ (∀ c ∈ module, isQuote c = false) ∧ isQuote closing = true ∧
    (∀ c ∈ after, isBlank c = true) ∧ Text.isName symbol = true

theorem not_isBlank_of_isQuote {c : Char} (h : isQuote c = true) : isBlank c = false := by
  rw [isQuote, Bool.or_eq_true, decide_eq_true_eq, decide_eq_true_eq] at h
  rcases h with rfl | rfl <;> decide

theorem readReference?_append {written module symbol after : Text}
    (h : IsReference written module symbol) (hafter : EndsName after) :
    readReference? (written ++ after) = some (module, symbol, after) := by
  obtain ⟨blanks, opening, closing, blanks', rfl, hblanks, hopen, hne, hmodule, hclose, hblanks',
    hsymbol⟩ := h
  have hchars : ∀ c ∈ symbol, isNameChar c = true := fun c => isNameChar_of_mem_name hsymbol
  have htake := takeWhile_append_stop hchars hafter
  have hrest := dropWhile_append_stop hchars hafter
  obtain ⟨first, more, rfl, hfirst, -⟩ := Text.isName_iff.1 hsymbol
  have htext : ("import(".toList ++ (blanks ++ opening :: (module ++ closing ::
      (blanks' ++ (").".toList ++ first :: more))))) ++ after
      = "import(".toList ++ (blanks ++ opening :: (module ++ closing ::
        (blanks' ++ (").".toList ++ first :: (more ++ after))))) := by simp
  rw [List.cons_append] at htake hrest
  rw [htext]
  have hdrop : (blanks ++ opening :: (module ++ closing :: (blanks' ++ (").".toList
      ++ first :: (more ++ after))))).dropWhile isBlank
      = opening :: (module ++ closing :: (blanks' ++ (").".toList ++ first :: (more ++ after)))) := by
    refine dropWhile_append_stop hblanks ?_
    rintro c ⟨⟩
    exact not_isBlank_of_isQuote hopen
  have hplain : ∀ c ∈ module, (!isQuote c) = true := fun c hc => by rw [hmodule c hc, Bool.not_false]
  have hquote : ∀ c, (closing :: (blanks' ++ (").".toList ++ first :: (more ++ after)))).head? = some c →
      (!isQuote c) = false := by
    rintro c ⟨⟩
    rw [hclose, Bool.not_true]
  have hdrop' : (blanks' ++ (").".toList ++ first :: (more ++ after))).dropWhile isBlank
      = ").".toList ++ first :: (more ++ after) := by
    refine dropWhile_append_stop hblanks' ?_
    rintro c ⟨⟩
    decide
  simp only [readReference?, Text.dropLead?_eq_some_iff.2 rfl, hdrop, hopen,
    takeWhile_append_stop hplain hquote, dropWhile_append_stop hplain hquote, hdrop', bind,
    Option.bind_some, Bool.not_true, List.isEmpty_iff, hne, if_false, Bool.false_eq_true, hfirst,
    if_true, htake, hrest]

theorem isReference_of_readReference? {t module symbol after : Text}
    (h : readReference? t = some (module, symbol, after)) :
    ∃ written, IsReference written module symbol ∧ t = written ++ after ∧ EndsName after := by
  unfold readReference? at h
  obtain ⟨afterOpen, hopen, h⟩ := Option.bind_eq_some_iff.1 h
  rw [Text.dropLead?_eq_some_iff] at hopen
  split at h
  · simp at h
  next opening quoted hquoted =>
  split at h
  · simp at h
  next hopening =>
  rw [Bool.not_eq_true, Bool.not_eq_false'] at hopening
  dsimp only at h
  split at h
  · simp at h
  next hmodule =>
  split at h
  · simp at h
  next closing behind hbehind =>
  obtain ⟨named, hnamed, h⟩ := Option.bind_eq_some_iff.1 h
  rw [Text.dropLead?_eq_some_iff] at hnamed
  split at h
  · simp at h
  next first more =>
  split at h
  next hfirst =>
    simp only [Option.some.injEq, Prod.mk.injEq] at h
    obtain ⟨hm, hs, ha⟩ := h
    have hnot : ∀ c ∈ module, isQuote c = false := by
      intro c hc
      rw [← hm] at hc
      simpa using List.mem_takeWhile_imp hc
    have hclosing : isQuote closing = true := by
      have hc := Text.head?_dropWhile (p := fun c => !isQuote c) (t := quoted) (c := closing)
        (by rw [hbehind]; rfl)
      simpa using hc
    have hsymbol : Text.isName symbol = true := by
      rw [← hs, List.takeWhile_cons_of_pos (isNameChar_of_isNameStart hfirst)]
      exact Text.isName_iff.2 ⟨first, _, rfl, hfirst, fun d hd => List.mem_takeWhile_imp hd⟩
    refine ⟨_, ⟨afterOpen.takeWhile isBlank, opening, closing, behind.takeWhile isBlank, rfl,
      fun c hc => List.mem_takeWhile_imp hc, hopening, ?_, hnot, hclosing,
      fun c hc => List.mem_takeWhile_imp hc, hsymbol⟩, ?_, ?_⟩
    · rw [← hm]
      simpa using hmodule
    · have hbl := List.takeWhile_append_dropWhile (p := isBlank) (l := afterOpen)
      have hqu := List.takeWhile_append_dropWhile (p := fun c => !isQuote c) (l := quoted)
      have hbl' := List.takeWhile_append_dropWhile (p := isBlank) (l := behind)
      have hna := List.takeWhile_append_dropWhile (p := isNameChar) (l := first :: more)
      rw [hs, ha] at hna
      simp only [List.append_assoc, List.cons_append]
      rw [hna, ← hnamed, hbl', ← hbehind, ← hm, hqu, ← hquoted, hbl]
      exact hopen
    · intro c hc
      rw [← ha] at hc
      exact Text.head?_dropWhile hc
  next => simp at h

/-- What the reader takes for a reference is one, with its whole symbol. -/
theorem readReference?_eq_some_iff {t module symbol after : Text} :
    readReference? t = some (module, symbol, after) ↔
      ∃ written, IsReference written module symbol ∧ t = written ++ after ∧ EndsName after := by
  refine ⟨isReference_of_readReference?, ?_⟩
  rintro ⟨written, hw, rfl, hafter⟩
  exact readReference?_append hw hafter

theorem IsReference.exists_cons {written module symbol : Text}
    (h : IsReference written module symbol) : ∃ rest, written = 'i' :: rest := by
  obtain ⟨_, _, _, _, rfl, -⟩ := h
  exact ⟨_, rfl⟩

theorem readReference?_cons_of_ne {c : Char} (hc : c ≠ 'i') (rest : Text) :
    readReference? (c :: rest) = none := by
  rw [Option.eq_none_iff_forall_ne_some]
  rintro ⟨module, symbol, after⟩ h
  obtain ⟨written, hw, ht, -⟩ := readReference?_eq_some_iff.1 h
  obtain ⟨more, rfl⟩ := hw.exists_cons
  exact hc (List.cons.inj ht).1

/-! ## Pieces -/

theorem length_lt_of_readReference? {t module symbol after : Text}
    (h : readReference? t = some (module, symbol, after)) : after.length < t.length := by
  obtain ⟨written, hw, rfl, -⟩ := readReference?_eq_some_iff.1 h
  obtain ⟨rest, rfl⟩ := hw.exists_cons
  simp only [List.length_append, List.length_cons]
  omega

theorem piecesUpTo_eq {t : Text} {m n : Nat} (hm : t.length ≤ m) (hn : t.length ≤ n) :
    piecesUpTo m t = piecesUpTo n t := by
  induction m generalizing t n with
  | zero =>
    have hnil : t = [] := List.length_eq_zero_iff.1 (by omega)
    subst hnil
    cases n <;> rfl
  | succ m ih =>
    cases t with
    | nil => cases n <;> rfl
    | cons c rest =>
      obtain ⟨n, rfl⟩ : ∃ k, n = k + 1 := ⟨n - 1, by simp only [List.length_cons] at hn; omega⟩
      rw [piecesUpTo, piecesUpTo]
      simp only [List.length_cons] at hm hn
      split
      · next module symbol after h =>
        have hlt := length_lt_of_readReference? h
        simp only [List.length_cons] at hlt
        rw [ih (t := after) (n := n) (by omega) (by omega)]
      · rw [ih (t := rest) (n := n) (by omega) (by omega)]

theorem pieces_nil : pieces [] = [] := rfl

theorem pieces_char {c : Char} {rest : Text} (h : readReference? (c :: rest) = none) :
    pieces (c :: rest) = .char c :: pieces rest := by
  rw [pieces, List.length_cons, piecesUpTo, h]
  rfl

theorem pieces_read {written module symbol after : Text} (hw : IsReference written module symbol)
    (hafter : EndsName after) :
    pieces (written ++ after) = .reference ⟨module, symbol, written⟩ :: pieces after := by
  have hread := readReference?_append hw hafter
  have hlt := length_lt_of_readReference? hread
  obtain ⟨rest, rfl⟩ := hw.exists_cons
  rw [List.cons_append] at hread hlt ⊢
  rw [pieces, List.length_cons, piecesUpTo, hread]
  simp only [List.length_cons] at hlt
  have htake : ('i' :: (rest ++ after)).take (('i' :: (rest ++ after)).length - after.length)
      = 'i' :: rest := by
    have hlen : ('i' :: (rest ++ after)).length - after.length = ('i' :: rest).length := by
      simp only [List.length_cons, List.length_append]
      omega
    rw [hlen, ← List.cons_append, List.take_left]
  simp only [htake]
  rw [piecesUpTo_eq (n := after.length) (by omega) (Nat.le_refl _)]
  rfl

theorem exists_read_of_mem_pieces {t : Text} {r : Reference} (h : .reference r ∈ pieces t) :
    ∃ rest after, readReference? rest = some (r.module, r.symbol, after) := by
  rw [pieces] at h
  generalize t.length = bound at h
  induction bound generalizing t with
  | zero => simp [piecesUpTo] at h
  | succ bound ih =>
    cases t with
    | nil => simp [piecesUpTo] at h
    | cons c rest =>
      rw [piecesUpTo] at h
      split at h
      · next module symbol after hread =>
        rcases List.mem_cons.1 h with heq | h
        · obtain rfl := Piece.reference.inj heq
          exact ⟨_, _, hread⟩
        · exact ih h
      · next hread =>
        rcases List.mem_cons.1 h with heq | h
        · exact absurd heq (by simp)
        · exact ih h

theorem readReference?_of_references {t : Text} (h : references t = []) {s : Text} (hs : s <:+ t) :
    readReference? s = none := by
  induction t with
  | nil =>
    rw [List.suffix_nil.1 hs]
    rfl
  | cons c rest ih =>
    cases hread : readReference? (c :: rest) with
    | none =>
      rw [references, pieces_char hread] at h
      rcases List.suffix_cons_iff.1 hs with rfl | hs
      · exact hread
      · exact ih h hs
    | some found =>
      obtain ⟨module, symbol, after⟩ := found
      obtain ⟨written, hw, ht, hafter⟩ := readReference?_eq_some_iff.1 hread
      rw [ht, references, pieces_read hw hafter] at h
      simp [Piece.reference?] at h

theorem references_eq_nil {t : Text} (h : ¬"import(".toList <:+: t) : references t = [] := by
  induction t with
  | nil => rfl
  | cons c rest ih =>
    have hread : readReference? (c :: rest) = none := by
      rw [Option.eq_none_iff_forall_ne_some]
      rintro ⟨module, symbol, after⟩ hread
      obtain ⟨written, ⟨_, _, _, _, rfl, -⟩, ht, -⟩ := readReference?_eq_some_iff.1 hread
      refine h ?_
      rw [ht, List.append_assoc]
      exact (List.prefix_append _ _).isInfix
    have hrest : references rest = [] := ih fun hin => h (hin.trans (List.suffix_cons c rest).isInfix)
    rw [references, pieces_char hread]
    exact hrest

/-! ## A reference in a text -/

/-- A module's name that can stand in a reference without a character that ends it or that brackets or
separates types. -/
structure PlainModule (module : Text) : Prop where
  ne_nil : module ≠ []
  plain : ∀ c ∈ module, c ∉ "\"\x27<>()|".toList

instance (module : Text) : Decidable (PlainModule module) :=
  have := List.decidableBAll (fun c => c ∉ "\"\x27<>()|".toList) module
  decidable_of_iff (module ≠ [] ∧ ∀ c ∈ module, c ∉ "\"\x27<>()|".toList)
    ⟨fun h => ⟨h.1, h.2⟩, fun h => ⟨h.ne_nil, h.plain⟩⟩

/-- What stands in a reference behind its first word. -/
def behindImport (module symbol : Text) : Text :=
  '(' :: '"' :: (module ++ '"' :: ')' :: '.' :: symbol)

theorem reference_eq (module symbol : Text) :
    reference module symbol = "import".toList ++ behindImport module symbol := by
  have hopen : "import(\"".toList = "import".toList ++ ['(', '"'] := rfl
  have hclose : "\").".toList = ['"', ')', '.'] := rfl
  unfold reference behindImport
  rw [hopen, hclose]
  simp only [List.append_assoc, List.cons_append, List.nil_append]

theorem import_eq : "import".toList = 'i' :: "mport".toList := rfl

theorem importOpen_eq : "import(".toList = 'i' :: "mport(".toList := rfl

variable {module symbol : Text}

theorem isReference_reference (hm : PlainModule module) (hs : Text.isName symbol = true) :
    IsReference (reference module symbol) module symbol := by
  refine ⟨[], '"', '"', [], ?_, by simp, by decide, hm.ne_nil, ?_, by decide, by simp, hs⟩
  · rw [reference_eq]
    rfl
  intro c hc
  have hplain := hm.plain c hc
  simp only [isQuote, Bool.or_eq_false_iff, decide_eq_false_iff_not]
  constructor <;> rintro rfl <;> exact hplain (by decide)

/-- Behind its first character, what stands in front of the symbol of a reference has an `i` in the
module's name only. -/
theorem mem_module_of_lead_eq {before more blanks blanks' name : Text} {opening closing : Char}
    (hbefore : before ≠ []) (hblanks : ∀ c ∈ blanks, isBlank c = true)
    (hopen : isQuote opening = true) (hclose : isQuote closing = true)
    (hblanks' : ∀ c ∈ blanks', isBlank c = true)
    (h : "import(".toList ++ (blanks ++ opening :: (name ++ closing :: (blanks' ++ ").".toList)))
      = before ++ 'i' :: more) :
    ∃ front tail, name = front ++ 'i' :: tail ∧ more = tail ++ closing :: (blanks' ++ ").".toList) := by
  obtain ⟨b, before, rfl⟩ := List.exists_cons_of_ne_nil hbefore
  rw [importOpen_eq, List.cons_append, List.cons_append, List.cons.injEq] at h
  have hi : 'i' ∉ "mport(".toList ++ (blanks ++ [opening]) := by
    intro hmem
    simp only [List.mem_append, List.mem_singleton] at hmem
    rcases hmem with hmem | hmem | hmem
    · exact absurd hmem (by decide)
    · exact absurd (hblanks _ hmem) (by decide)
    · exact absurd (hmem ▸ hopen) (by decide)
  have hi' : 'i' ∉ closing :: (blanks' ++ ").".toList) := by
    intro hmem
    simp only [List.mem_append, List.mem_cons] at hmem
    rcases hmem with hmem | hmem | hmem
    · exact absurd (hmem ▸ hclose) (by decide)
    · exact absurd (hblanks' _ hmem) (by decide)
    · exact absurd hmem (by decide)
  have hcut : [] ++ (("mport(".toList ++ (blanks ++ [opening]))
      ++ (name ++ closing :: (blanks' ++ ").".toList))) = before ++ 'i' :: more := by
    rw [← h.2]
    simp
  rcases Text.cons_append_cases hi hcut with ⟨between, hbetween, -⟩ | ⟨_, hnil, -⟩
  · rw [← List.append_nil (closing :: _)] at hbetween
    rcases Text.cons_append_cases hi' hbetween with ⟨_, hnil, -⟩ | ⟨tail, hfront, htail⟩
    · simp at hnil
    · exact ⟨between, tail, hfront, by rw [htail, List.append_nil]⟩
  · simp at hnil

/-- A reference cannot begin in front of another one and have its symbol behind the start of that. -/
theorem not_reference_across (hm : PlainModule module) {before more after rest : Text}
    {opening closing : Char} {blanks name blanks' : Text} (hbefore : before ≠ []) (hmore : more ≠ [])
    (hblanks : ∀ c ∈ blanks, isBlank c = true) (hopen : isQuote opening = true)
    (hname : ∀ c ∈ name, isQuote c = false) (hclose : isQuote closing = true)
    (hblanks' : ∀ c ∈ blanks', isBlank c = true)
    (hlead : "import(".toList ++ (blanks ++ opening :: (name ++ closing :: (blanks' ++ ").".toList)))
      = before ++ more)
    (hrest : reference module symbol ++ after = more ++ rest) : False := by
  obtain ⟨d, more, rfl⟩ := List.exists_cons_of_ne_nil hmore
  rw [reference_eq, import_eq, List.cons_append, List.cons_append, List.cons_append,
    List.cons.injEq] at hrest
  obtain ⟨rfl, hrest⟩ := hrest
  obtain ⟨front, tail, rfl, rfl⟩ :=
    mem_module_of_lead_eq hbefore hblanks hopen hclose hblanks' hlead
  -- both texts up to their first quote, and from it on
  have htail : ∀ c ∈ tail, (!isQuote c) = true := by
    intro c hc
    rw [hname c (List.mem_append_right _ (List.mem_cons_of_mem _ hc)), Bool.not_false]
  have hquotes : "mport(".toList ++ '"' :: (module ++ '"' :: ')' :: '.' :: (symbol ++ after))
      = tail ++ closing :: (blanks' ++ (").".toList ++ rest)) := by
    simpa [behindImport] using hrest
  obtain ⟨-, hdrop⟩ := append_stop_inj (p := fun c => !isQuote c) (List.all_eq_true.1 (by decide)) htail
    (by rintro c ⟨⟩; decide) (by rintro c ⟨⟩; rw [hclose, Bool.not_true]) hquotes
  obtain ⟨-, hdrop⟩ := List.cons.inj hdrop
  have hparen : ')' ∉ module := fun h => hm.plain _ h (by decide)
  have hdrop' : [] ++ (module ++ '"' :: ')' :: '.' :: (symbol ++ after))
      = blanks' ++ ')' :: ('.' :: rest) := hdrop
  rcases Text.cons_append_cases hparen hdrop' with ⟨between', hb, hblank⟩ | ⟨_, hnil, -⟩
  · cases between' with
    | nil => exact absurd (List.cons.inj hb).1 (by decide)
    | cons q between' =>
      obtain ⟨rfl, -⟩ := List.cons.inj hb
      have hq := hblanks' '"' (by rw [hblank]; simp)
      exact absurd hq (by decide)
  · simp at hnil

/-- A reference that begins in front of another one ends there as well, or its symbol takes the first
word of that. -/
theorem append_reference_cases (hm : PlainModule module) {before after written name rest : Text}
    {found : Text} (hbefore : before ≠ []) (hw : IsReference written found name)
    (hrest : EndsName rest)
    (h : before ++ (reference module symbol ++ after) = written ++ rest) :
    (∃ between, before = written ++ between ∧ rest = between ++ (reference module symbol ++ after)) ∨
      (∃ lead lead', name = lead ++ "import".toList ∧ written = lead' ++ "import".toList ∧
        rest = behindImport module symbol ++ after) := by
  obtain ⟨blanks, opening, closing, blanks', rfl, hblanks, hopen, -, hfound, hclose, hblanks',
    hname⟩ := hw
  generalize hlead : "import(".toList ++ (blanks ++ opening :: (found ++ closing ::
    (blanks' ++ ").".toList))) = lead
  have hwritten : "import(".toList ++ (blanks ++ opening :: (found ++ closing ::
      (blanks' ++ (").".toList ++ name)))) = lead ++ name := by
    rw [← hlead]
    simp
  rw [hwritten, List.append_assoc] at h
  rw [hwritten]
  -- the part in front of the name has ended where the other reference begins
  obtain ⟨inner, hinner, htail⟩ : ∃ inner, before = lead ++ inner ∧
      name ++ rest = inner ++ (reference module symbol ++ after) := by
    rcases List.append_eq_append_iff.1 h with ⟨more, hl, hr⟩ | ⟨inner, hb, hr⟩
    · by_cases hmore : more = []
      · subst hmore
        exact ⟨[], by rw [List.append_nil] at hl ⊢; exact hl.symm, by simpa using hr.symm⟩
      · exact (not_reference_across hm hbefore hmore hblanks hopen hfound hclose hblanks'
          (hlead.trans hl) hr).elim
    · exact ⟨inner, hb, hr⟩
  rcases List.append_eq_append_iff.1 htail with ⟨between, hi, hr⟩ | ⟨word, hn, hr⟩
  · exact .inl ⟨between, by rw [hinner, hi, List.append_assoc], hr⟩
  · by_cases hword : word = []
    · subst hword
      rw [List.append_nil] at hn
      exact .inl ⟨[], by rw [hinner, hn, List.append_nil], hr.symm⟩
    · have hchars : ∀ c ∈ word, isNameChar c = true := fun c hc =>
        isNameChar_of_mem_name hname (hn ▸ List.mem_append_right _ hc)
      rw [reference_eq, List.append_assoc] at hr
      have hstop : ∀ c, (behindImport module symbol ++ after).head? = some c → isNameChar c = false := by
        rintro c ⟨⟩
        decide
      obtain ⟨hfirst, hbehind⟩ := append_stop_inj (List.all_eq_true.1 (by decide)) hchars hstop hrest hr
      refine .inr ⟨inner, lead ++ inner, by rw [hn, hfirst], ?_, hbehind.symm⟩
      rw [hn, ← hfirst, List.append_assoc]

/-- A reference in a text is a piece of it, or the symbol of an earlier reference has taken its first
word. -/
theorem pieces_reference (hm : PlainModule module) (hs : Text.isName symbol = true) {after : Text}
    (hafter : EndsName after) (before : Text) :
    (∃ front, pieces (before ++ (reference module symbol ++ after))
        = front ++ .reference ⟨module, symbol, reference module symbol⟩ :: pieces after) ∨
      ∃ front r lead lead', r.symbol = lead ++ "import".toList ∧ r.written = lead' ++ "import".toList ∧
        pieces (before ++ (reference module symbol ++ after))
          = front ++ .reference r :: pieces (behindImport module symbol ++ after) := by
  induction hn : before.length using Nat.strongRecOn generalizing before with
  | ind n ih =>
    cases before with
    | nil => exact .inl ⟨[], pieces_read (isReference_reference hm hs) hafter⟩
    | cons c before =>
      cases hread : readReference? (c :: (before ++ (reference module symbol ++ after))) with
      | none =>
        rw [List.cons_append, pieces_char hread]
        simp only [List.length_cons] at hn
        rcases ih before.length (by omega) before rfl with ⟨front, h⟩ | ⟨front, r, l, l', h1, h2, h⟩
        · exact .inl ⟨.char c :: front, by rw [h, List.cons_append]⟩
        · exact .inr ⟨.char c :: front, r, l, l', h1, h2, by rw [h, List.cons_append]⟩
      | some found =>
        obtain ⟨m, name, rest⟩ := found
        obtain ⟨written, hw, ht, hrest⟩ := readReference?_eq_some_iff.1 hread
        rw [← List.cons_append] at ht
        rw [ht, pieces_read hw hrest]
        rcases append_reference_cases hm (List.cons_ne_nil c before) hw hrest ht with
          ⟨between, hb, hr⟩ | ⟨l, l', h1, h2, hr⟩
        · obtain ⟨more, hmore⟩ := hw.exists_cons
          have hlt : between.length < n := by
            have hlen := congrArg List.length hb
            rw [hmore] at hlen
            simp only [List.length_append, List.length_cons] at hlen hn
            omega
          rw [hr]
          rcases ih between.length hlt between rfl with ⟨front, h⟩ | ⟨front, r, l, l', h1, h2, h⟩
          · exact .inl ⟨_ :: front, by rw [h, List.cons_append]⟩
          · exact .inr ⟨_ :: front, r, l, l', h1, h2, by rw [h, List.cons_append]⟩
        · exact .inr ⟨[], _, l, l', h1, h2, by rw [hr, List.nil_append]⟩

end TypeText

end NestClient
