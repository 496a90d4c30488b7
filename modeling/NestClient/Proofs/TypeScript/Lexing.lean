import NestClient.Proofs.TypeScript.Printed

/-! The first token of a text that is put together from blanks, a token and more text. What follows a
word must end it, and what follows a mark must not lengthen it; a string ends with its quote. -/

namespace NestClient.TypeScript

/-! ## Blanks -/

def Blank (t : Text) : Prop := ∀ c ∈ t, isSpace c = true

theorem blank_nil : Blank [] := fun _ h => absurd h List.not_mem_nil

theorem blank_space : Blank " ".toList := by
  intro c hc
  obtain rfl : c = ' ' := List.mem_singleton.1 hc
  decide

theorem Blank.append {lead more : Text} (h : Blank lead) (h' : Blank more) : Blank (lead ++ more) :=
  fun c hc => (List.mem_append.1 hc).elim (h c) (h' c)

theorem blank_line : Blank "\n".toList := by
  intro c hc
  obtain rfl : c = '\n' := List.mem_singleton.1 hc
  decide

theorem blank_lead {lead : Text} (h : lead = [] ∨ lead = " ".toList) : Blank lead := by
  rcases h with rfl | rfl
  · exact blank_nil
  · exact blank_space

theorem trivia_append {lead t : Text} (hlead : Blank lead)
    (ht : ∀ c, t.head? = some c → isSpace c = false ∧ c ≠ '/') :
    Lexer.trivia .blank (lead ++ t) = (lead, t) := by
  induction lead with
  | nil =>
    cases t with
    | nil => rfl
    | cons c t =>
      obtain ⟨hspace, hslash⟩ := ht c rfl
      rw [List.nil_append, Lexer.trivia]
      · simp [hspace]
      · rintro _ rfl
        exact absurd rfl hslash
      · rintro _ rfl
        exact absurd rfl hslash
  | cons c lead ih =>
    have hc : isSpace c = true := hlead c List.mem_cons_self
    have hslash : c ≠ '/' := fun h => absurd hc (by rw [h]; decide)
    rw [List.cons_append, Lexer.trivia]
    · rw [if_pos hc, ih fun d hd => hlead d (List.mem_cons_of_mem c hd)]
      rfl
    · rintro _ rfl
      exact absurd rfl hslash
    · rintro _ rfl
      exact absurd rfl hslash

theorem commentCount_blank {lead : Text} (hlead : Blank lead) : Lexer.commentCount .blank lead = 0 := by
  induction lead with
  | nil => rfl
  | cons c lead ih =>
    have hslash : c ≠ '/' := fun h => absurd (hlead c List.mem_cons_self) (by rw [h]; decide)
    rw [Lexer.commentCount]
    · exact ih fun d hd => hlead d (List.mem_cons_of_mem c hd)
    · rintro _ rfl
      exact absurd rfl hslash
    · rintro _ rfl
      exact absurd rfl hslash

/-! ## Words -/

/-- No word goes on here. -/
def EndsWord (t : Text) : Prop := ∀ c, t.head? = some c → isWordChar c = false ∧ c ≠ '\\'

theorem Blank.endsWord {lead : Text} (h : Blank lead) (hne : lead ≠ []) (rest : Text) :
    EndsWord (lead ++ rest) := by
  cases lead with
  | nil => exact absurd rfl hne
  | cons c lead =>
    intro d hd
    obtain rfl : c = d := Option.some.inj hd
    have hspace : isSpace c = true := h c List.mem_cons_self
    refine ⟨by simp [isWordChar, hspace], ?_⟩
    rintro rfl
    exact absurd hspace (by decide)

/-- The characters that stand behind words in written declarations. -/
def wordEnds : List Char := [' ', '(', ')', '<', '>', '[', ',', '.', ':', ';', '?']

theorem endsWord_cons {c : Char} (rest : Text) (hc : c ∈ wordEnds) : EndsWord (c :: rest) := by
  have hall : (wordEnds.all fun c => !isWordChar c && c ≠ '\\') = true := by decide
  intro d hd
  obtain rfl : c = d := Option.some.inj hd
  simpa using List.all_eq_true.1 hall c hc

theorem endsWord_space (rest : Text) : EndsWord (" ".toList ++ rest) := endsWord_cons rest (by decide)

theorem wordLength_of_endsWord {t : Text} (h : EndsWord t) (read : Nat) :
    Lexer.wordLength read t = read := by
  cases t with
  | nil => rw [Lexer.wordLength]
  | cons c t =>
    obtain ⟨hword, hescape⟩ := h c rfl
    rw [Lexer.wordLength.eq_def]
    simp [hword, hescape]

theorem wordLength_cons {c : Char} {rest : Text} {read : Nat} (hc : isWordChar c = true)
    (hstart : 0 < read ∨ c.isDigit = false) :
    Lexer.wordLength read (c :: rest) = Lexer.wordLength (read + 1) rest := by
  have hgo : (isWordChar c && (decide (0 < read) || !c.isDigit)) = true := by simpa [hc] using hstart
  rw [Lexer.wordLength.eq_def]
  exact if_pos hgo

theorem wordLength_append {word rest : Text} (hword : ∀ c ∈ word, isWordChar c = true)
    (hrest : EndsWord rest) {read : Nat} (hread : 0 < read) :
    Lexer.wordLength read (word ++ rest) = read + word.length := by
  induction word generalizing read with
  | nil => exact wordLength_of_endsWord hrest read
  | cons c word ih =>
    rw [List.cons_append, wordLength_cons (hword c List.mem_cons_self) (.inl hread),
      ih (fun d hd => hword d (List.mem_cons_of_mem c hd)) (by omega), List.length_cons]
    omega

theorem wordLength_word {word rest : Text} (hstart : word.head?.any isWordStart = true)
    (hword : ∀ c ∈ word, isWordChar c = true) (hrest : EndsWord rest) :
    Lexer.wordLength 0 (word ++ rest) = word.length := by
  cases word with
  | nil => simp at hstart
  | cons c word =>
    have hc : isWordChar c = true := hword c List.mem_cons_self
    have hdigit : c.isDigit = false := by
      have hs : (isWordChar c && !c.isDigit) = true := hstart
      simpa [hc] using hs
    rw [List.cons_append, wordLength_cons hc (.inr hdigit),
      wordLength_append (fun d hd => hword d (List.mem_cons_of_mem c hd)) hrest (Nat.succ_pos 0),
      List.length_cons]
    omega

/-! ## Marks -/

/-- A character that is a mark of its own before this one, or before the end of the text. -/
def isOwnMark (c : Char) (next : Option Char) : Bool :=
  Lexer.shortMarks.contains c && c ≠ '/' && !(c = '.' && next.any Char.isDigit)
    && Lexer.longMarks.all fun m => !(m.head? = some c && m[1]? = next)

/-- The marks that begin no longer one. -/
def loneMarks : Text := "()[];,:@\x7d".toList

theorem isOwnMark_of_lone {c : Char} (hc : c ∈ loneMarks) (next : Option Char) :
    isOwnMark c next = true := by
  have hlone : (loneMarks.all fun c => Lexer.shortMarks.contains c && c ≠ '/' && c ≠ '.'
      && Lexer.longMarks.all fun m => m.head? ≠ some c) = true := by decide
  have hall := List.all_eq_true.1 hlone c hc
  simp only [Bool.and_eq_true, decide_eq_true_eq] at hall
  obtain ⟨⟨⟨hshort, hslash⟩, hdot⟩, hlong⟩ := hall
  have hmarks : (Lexer.longMarks.all fun m => !(m.head? = some c && m[1]? = next)) = true := by
    refine List.all_eq_true.2 fun m hm => ?_
    have hne : m.head? ≠ some c := by simpa using List.all_eq_true.1 hlong m hm
    simp [hne]
  rw [isOwnMark, hmarks, hshort]
  simp [hslash, hdot]

/-- Marks that begin longer ones, none of which goes on as below. -/
def stemMarks : List Char := ['{', '*', '=', '?']

/-- A blank, or a mark that separates or closes. -/
def separators : List Char := [' ', '\n', '}', ':', ')', ',']

theorem isOwnMark_separator {c d : Char} (hc : c ∈ stemMarks) (hd : d ∈ separators) :
    isOwnMark c (some d) = true := by
  have hall : (stemMarks.all fun c => separators.all fun d => isOwnMark c (some d)) = true := by decide
  exact List.all_eq_true.1 (List.all_eq_true.1 hall c hc) d hd

theorem isOwnMark_of_isWordStart {c d : Char} (hc : c ∈ Lexer.shortMarks) (hslash : c ≠ '/')
    (hd : isWordStart d = true) : isOwnMark c (some d) = true := by
  have hsecond : (Lexer.longMarks.all fun m => !m[1]?.any isWordStart) = true := by decide
  have hdigit : d.isDigit = false := by
    have hs : (isWordChar d && !d.isDigit) = true := hd
    rw [Bool.and_eq_true] at hs
    simpa using hs.2
  have hmarks : (Lexer.longMarks.all fun m => !(m.head? = some c && m[1]? = some d)) = true := by
    refine List.all_eq_true.2 fun m hm => ?_
    have hnone := List.all_eq_true.1 hsecond m hm
    have hne : m[1]? ≠ some d := fun h => by simp [h, hd] at hnone
    simp [hne]
  rw [isOwnMark, hmarks]
  simp [hc, hslash, hdigit]

theorem tokenAt_mark {c : Char} {rest : Text} (hc : c ∈ Lexer.shortMarks)
    (hdot : (decide (c = '.') && rest.head?.any Char.isDigit) = false) :
    Lexer.tokenAt (c :: rest) =
      match Lexer.markLength (c :: rest) with
      | 0 => (.bad, 1)
      | n => (.mark, n) := by
  have hmarks : (Lexer.shortMarks.all fun c =>
      !isWordChar c && c ≠ '\\' && !c.isDigit && c ≠ '"' && c ≠ '\x27' && c ≠ '#') = true := by decide
  have hall := List.all_eq_true.1 hmarks c hc
  simp only [Bool.and_eq_true, Bool.not_eq_true', decide_eq_true_eq] at hall
  obtain ⟨⟨⟨⟨⟨hword, hescape⟩, hdigit⟩, hdouble⟩, hsingle⟩, hhash⟩ := hall
  have hlength : Lexer.wordLength 0 (c :: rest) = 0 :=
    wordLength_of_endsWord (fun d hd => by
      obtain rfl : c = d := Option.some.inj hd
      exact ⟨hword, hescape⟩) 0
  cases hmark : Lexer.markLength (c :: rest) <;>
    simp only [Lexer.tokenAt, hmark, hlength, hdigit, hdot, hdouble, hsingle, hhash, Nat.lt_irrefl,
      decide_false, Bool.false_and, Bool.or_self, Bool.false_eq_true, if_false]

theorem isPrefixOf_cons_cons {m : Text} {c : Char} {rest : Text} (hlength : 2 ≤ m.length)
    (h : m.isPrefixOf (c :: rest) = true) : m.head? = some c ∧ m[1]? = rest.head? := by
  match m, hlength with
  | a :: b :: more, _ =>
    cases rest with
    | nil => simp [List.isPrefixOf] at h
    | cons d rest => simp_all [List.isPrefixOf]

theorem markLength_of_isOwnMark {c : Char} {rest : Text} (h : isOwnMark c rest.head? = true) :
    Lexer.markLength (c :: rest) = 1 := by
  simp only [isOwnMark, Bool.and_eq_true] at h
  obtain ⟨⟨⟨hshort, -⟩, -⟩, hlong⟩ := h
  have hlengths : (Lexer.longMarks.all fun m => decide (2 ≤ m.length)) = true := by decide
  have hnone : Lexer.longMarks.find? (·.isPrefixOf (c :: rest)) = none := by
    refine List.find?_eq_none.2 fun m hm hprefix => ?_
    have htwo : 2 ≤ m.length := by simpa using List.all_eq_true.1 hlengths m hm
    have hfree := List.all_eq_true.1 hlong m hm
    simp [isPrefixOf_cons_cons htwo hprefix] at hfree
  rw [Lexer.markLength, hnone]
  simpa using hshort

/-! ## Strings -/

theorem stringEnd_append {value rest : Text} {quote : Char}
    (hvalue : ∀ c ∈ value, c ≠ quote ∧ c ≠ '\\' ∧ c ≠ '\n' ∧ c ≠ '\r') (read : Nat) :
    Lexer.stringEnd quote read (value ++ quote :: rest) = some (read + value.length + 1) := by
  induction value generalizing read with
  | nil =>
    rw [List.nil_append, Lexer.stringEnd.eq_def]
    simp
  | cons c value ih =>
    obtain ⟨hquote, hescape, hline, hreturn⟩ := hvalue c List.mem_cons_self
    rw [List.cons_append, Lexer.stringEnd.eq_def]
    simp only [hquote, hescape, hline, hreturn, decide_false, Bool.or_self, Bool.false_eq_true, if_false]
    rw [ih fun d hd => hvalue d (List.mem_cons_of_mem c hd)]
    simp
    omega

/-! ## Tokens -/

/-- The text `word ++ rest` begins with a token that is `word`. -/
structure Lexes (kind : TokenKind) (word rest : Text) : Prop where
  solid : ∃ c, word.head? = some c ∧ isSpace c = false ∧ c ≠ '/'
  tokenAt : Lexer.tokenAt (word ++ rest) = (kind, word.length)

namespace Lexes

theorem ne_nil {kind : TokenKind} {word rest : Text} (h : Lexes kind word rest) : word ≠ [] := by
  rintro rfl
  obtain ⟨_, hc, -⟩ := h.solid
  simp at hc

theorem word {word rest : Text} (hstart : word.head?.any isWordStart = true)
    (hword : ∀ c ∈ word, isWordChar c = true) (hrest : EndsWord rest) : Lexes .word word rest := by
  have hlength := wordLength_word hstart hword hrest
  cases word with
  | nil => simp at hstart
  | cons c word =>
    have hc : isWordChar c = true := hword c List.mem_cons_self
    refine ⟨⟨c, rfl, ?_, ?_⟩, ?_⟩
    · have hs : (31 < c.toNat && !isSpace c && !nameBreakers.contains c) = true := hc
      simp only [Bool.and_eq_true, Bool.not_eq_true'] at hs
      exact hs.1.2
    · rintro rfl
      exact absurd hc (by decide)
    · rw [List.cons_append] at hlength ⊢
      rw [Lexer.tokenAt, hlength, List.length_cons]
      simp

theorem mark {c : Char} {rest : Text} (h : isOwnMark c rest.head? = true) : Lexes .mark [c] rest := by
  have hparts := h
  simp only [isOwnMark, Bool.and_eq_true, Bool.not_eq_true', decide_eq_true_eq] at hparts
  obtain ⟨⟨⟨hshort, hslash⟩, hdot⟩, -⟩ := hparts
  have hc : c ∈ Lexer.shortMarks := by simpa using hshort
  have hspace : (Lexer.shortMarks.all fun c => !isSpace c) = true := by decide
  refine ⟨⟨c, rfl, by simpa using List.all_eq_true.1 hspace c hc, hslash⟩, ?_⟩
  rw [List.singleton_append, tokenAt_mark hc hdot, markLength_of_isOwnMark h]
  rfl

/-- An angle bracket begins a mark, whatever follows it. -/
theorem angle (rest : Text) : ∃ more after, rest = more ++ after ∧ Lexes .mark ('>' :: more) after := by
  have hlex : Lexer.tokenAt ('>' :: rest) = _ := tokenAt_mark (by decide) rfl
  have hsolid (more : Text) : ∃ c, ('>' :: more).head? = some c ∧ isSpace c = false ∧ c ≠ '/' :=
    ⟨'>', rfl, by decide, by decide⟩
  rw [Lexer.markLength] at hlex
  cases hfind : Lexer.longMarks.find? (·.isPrefixOf ('>' :: rest)) with
  | none =>
    refine ⟨[], rest, rfl, hsolid [], ?_⟩
    rw [hfind] at hlex
    exact hlex
  | some m =>
    have hprefix : m.isPrefixOf ('>' :: rest) = true :=
      List.find?_some (p := fun m : Text => m.isPrefixOf ('>' :: rest)) hfind
    obtain ⟨after, hafter⟩ := List.isPrefixOf_iff_prefix.1 hprefix
    cases m with
    | nil => exact absurd (List.mem_of_find?_eq_some hfind) (by decide)
    | cons c more =>
      rw [List.cons_append] at hafter
      obtain ⟨rfl, hrest⟩ := List.cons.inj hafter
      refine ⟨more, after, hrest.symm, hsolid more, ?_⟩
      rw [hfind, ← hrest] at hlex
      exact hlex

/-- A literal is one token where its closing quote is found. -/
theorem string_of_stringEnd {quote : Char} {raw rest : Text} (hquote : quote = '"' ∨ quote = '\x27')
    (hend : Lexer.stringEnd quote 1 (raw ++ quote :: rest) = some (1 + raw.length + 1)) :
    Lexes .string (quote :: (raw ++ [quote])) rest := by
  have hsolid : isSpace quote = false ∧ quote ≠ '/' := by
    rcases hquote with rfl | rfl <;> decide
  have hends : EndsWord (quote :: (raw ++ quote :: rest)) := fun d hd => by
    obtain rfl : quote = d := Option.some.inj hd
    rcases hquote with rfl | rfl <;> decide
  have hdigit : quote.isDigit = false ∧ quote ≠ '.' := by
    rcases hquote with rfl | rfl <;> decide
  refine ⟨⟨quote, rfl, hsolid⟩, ?_⟩
  rw [List.cons_append, List.append_assoc, List.singleton_append, Lexer.tokenAt,
    wordLength_of_endsWord hends]
  simp [hdigit, hquote, hend]
  omega

theorem string {quote : Char} {value : Text} (hquote : quote = '"' ∨ quote = '\x27')
    (hvalue : ∀ c ∈ value, c ≠ quote ∧ c ≠ '\\' ∧ c ≠ '\n' ∧ c ≠ '\r') (rest : Text) :
    Lexes .string (quote :: (value ++ [quote])) rest :=
  string_of_stringEnd hquote (stringEnd_append hvalue 1)

end Lexes

end NestClient.TypeScript
