import NestClient.Proofs.Client.Comments
import NestClient.Proofs.Client.WireKey
import NestClient.Proofs.Extract.ParsedTypes

/-! What a client quotes is read back as it was, by a reader of string literals and by one of object
literals.

* `codeUnits_injective`: a string value is that of one text only.
* `stringLiteral_eq_replacements`: escaping backslashes first and quotes then is escaping both at once.
* `Denotes`: a single-quoted literal for a text. What a client quotes is one, but for line ends.
* `objectLiteral?`: the properties of a text that is an object literal.
* `objectLiteral?_bodyExpression`: a body with a key has that one property.
* `quoting_exact`: all of this for every text and for every body that is extracted. -/

namespace NestClient

open TypeScript

namespace TypeScript

/-! ## String values -/

theorem unitsOf_append_inj {c d : Char} {us vs : List Nat}
    (h : unitsOf c.toNat ++ us = unitsOf d.toNat ++ vs) : c = d ∧ us = vs := by
  -- no character has the code of a half of another one
  have hcode {c : Char} : c.toNat < 55296 ∨ 57343 < c.toNat ∧ c.toNat < 1114112 := c.valid
  have hc := @hcode c
  have hd := @hcode d
  suffices heq : c.toNat = d.toNat by
    rw [heq] at h
    exact ⟨Char.toNat_inj.1 heq, List.append_cancel_left h⟩
  unfold unitsOf at h
  split at h <;> split at h
  · exact (List.cons.inj h).1
  · have hfirst := (List.cons.inj h).1
    omega
  · have hfirst := (List.cons.inj h).1
    omega
  · obtain ⟨hfirst, hrest⟩ := List.cons.inj h
    have hsecond := (List.cons.inj hrest).1
    omega

theorem codeUnits_injective : Function.Injective codeUnits := by
  intro s t h
  induction s generalizing t with
  | nil =>
    have hlength := length_le_codeUnits t
    rw [← h] at hlength
    exact (List.length_eq_zero_iff.1 (Nat.le_zero.1 hlength)).symm
  | cons c s ih =>
    cases t with
    | nil =>
      have hlength := length_le_codeUnits (c :: s)
      rw [h] at hlength
      simp [codeUnits] at hlength
    | cons d t =>
      rw [codeUnits_cons, codeUnits_cons] at h
      obtain ⟨rfl, hrest⟩ := unitsOf_append_inj h
      rw [ih hrest]

/-! ## Object literals -/

/-- The tokens of a text, as kinds and texts. -/
def lexemes (t : Text) : List (TokenKind × Text) :=
  match _h : (Lexer.trivia .blank t).2 with
  | [] => []
  | c :: rest =>
    ((Lexer.tokenAt (c :: rest)).1, (c :: rest).take (Lexer.tokenAt (c :: rest)).2) ::
      lexemes (rest.drop ((Lexer.tokenAt (c :: rest)).2 - 1))
termination_by t.length
decreasing_by
  have hlength := congrArg List.length (Lexer.trivia_append_rest .blank t)
  rw [_h, List.length_append, List.length_cons] at hlength
  rw [List.length_drop]
  omega

theorem lexemes_of_starts {t lead word rest : Text} {kind : TokenKind}
    (h : Starts t kind lead word rest) : lexemes t = (kind, word) :: lexemes rest := by
  have htrivia := h.trivia
  have htoken := h.lexes.tokenAt
  cases word with
  | nil => exact absurd rfl h.lexes.ne_nil
  | cons c word =>
    rw [lexemes]
    split
    next hnone =>
      rw [htrivia] at hnone
      cases hnone
    next d more hsome =>
      rw [htrivia, List.cons_append] at hsome
      obtain ⟨rfl, rfl⟩ := List.cons.inj hsome
      rw [List.cons_append] at htoken
      simp [htoken]

theorem lexemes_of_blank {t : Text} (h : Blank t) : lexemes t = [] := by
  have htrivia := trivia_append (t := []) h (by simp)
  rw [List.append_nil] at htrivia
  rw [lexemes]
  split
  next => rfl
  next hsome =>
    rw [htrivia] at hsome
    cases hsome

end TypeScript

namespace Client

variable {key v w name tail : Text} {p : Parameter}

/-! ## Literals -/

def OneLine (t : Text) : Prop := ∀ c ∈ t, c ≠ '\n' ∧ c ≠ '\r'

instance (t : Text) : Decidable (OneLine t) := List.decidableBAll _ t

/-- The text is a single-quoted literal, from its first character to its last, of this value. -/
def Denotes (literal v : Text) : Prop :=
  literal.head? = some '\x27' ∧ stringValue? literal = some (codeUnits v)

theorem Denotes.unique {literal : Text} (h : Denotes literal v) (h' : Denotes literal w) : v = w :=
  codeUnits_injective (Option.some.inj (h.2.symm.trans h'.2))

/-- Escaping backslashes first and quotes then is escaping both at once: the backslashes that the second
step puts in come too late to be escaped, and no quote comes in with the first one. -/
theorem stringLiteral_eq_replacements (v : Text) : stringLiteral v =
    '\x27' :: Text.replaceChar '\x27' ['\\', '\x27'] (Text.replaceChar '\\' ['\\', '\\'] v)
      ++ ['\x27'] := by
  rw [stringLiteral, Text.replaceChar, Text.replaceChar, List.flatMap_assoc]
  refine congrArg (fun body => '\x27' :: body ++ ['\x27']) (List.flatMap_congr fun c _ => ?_)
  by_cases hslash : c = '\\'
  · rw [hslash]
    rfl
  · by_cases hquote : c = '\x27'
    · rw [hquote]
      rfl
    · simp [escapeQuoted, hslash, hquote]

theorem denotes_stringLiteral_iff : Denotes (stringLiteral v) v ↔ OneLine v := by
  have hquote : (stringLiteral v).head? = some '\x27' := rfl
  rw [Denotes, stringValue?_stringLiteral, and_iff_right hquote, and_iff_right rfl]
  rfl

theorem stringLiteral_injective (hv : OneLine v) (hw : OneLine w) (h : stringLiteral v = stringLiteral w) :
    v = w := by
  have hdenotes : Denotes (stringLiteral w) v := h ▸ denotes_stringLiteral_iff.2 hv
  exact hdenotes.unique (denotes_stringLiteral_iff.2 hw)

/-- A literal without line ends is read up to its closing quote, since each backslash in it takes the
character behind it along. -/
theorem stringEnd_escaped (hv : OneLine v) (rest : Text) (read : Nat) :
    Lexer.stringEnd '\x27' read (v.flatMap escapeQuoted ++ '\x27' :: rest)
      = some (read + (v.flatMap escapeQuoted).length + 1) := by
  induction v generalizing read with
  | nil =>
    rw [List.flatMap_nil, List.nil_append, Lexer.stringEnd.eq_def]
    rfl
  | cons c v ih =>
    obtain ⟨hc, hv⟩ := List.forall_mem_cons.1 hv
    rw [List.flatMap_cons, List.append_assoc, escapeQuoted]
    by_cases hescaped : c = '\\' ∨ c = '\x27'
    · have hlength : ∀ more : Text, Lexer.escapeLength (c :: more) = some 1 := by
        rintro (_ | ⟨d, more⟩) <;> rcases hescaped with rfl | rfl <;> rfl
      rw [if_pos (by simpa using hescaped), List.cons_append, List.singleton_append,
        Lexer.stringEnd.eq_def]
      simp [hlength, ih hv]
      omega
    · obtain ⟨hslash, hquote⟩ := not_or.1 hescaped
      rw [if_neg (by simpa using hescaped), List.singleton_append, Lexer.stringEnd.eq_def]
      simp [hslash, hquote, hc, ih hv]
      omega

theorem lexes_stringLiteral (hv : OneLine v) (rest : Text) : Lexes .string (stringLiteral v) rest :=
  .string_of_stringEnd (.inr rfl) (stringEnd_escaped hv rest 1)

/-! ## Names -/

theorem lexes_name (h : Text.isName name = true) {rest : Text} (hrest : EndsWord rest) :
    Lexes .word name rest := by
  have hword : ∀ d ∈ name, isWordChar d = true := fun d hd =>
    isWordChar_of_isNameChar (isNameChar_of_mem_name h hd)
  obtain ⟨c, more, rfl, hc, -⟩ := Text.isName_iff.1 h
  exact .word (isWordStart_of_isNameStart hc) hword hrest

theorem exists_name_of_isNameLine {t : Text} (h : Text.isNameLine t = true) :
    ∃ name tail, t = name ++ tail ∧ Text.isName name = true ∧ Blank tail := by
  rcases Text.isNameLine_iff.1 h with hname | ⟨name, rfl, hname⟩
  · exact ⟨t, [], (List.append_nil t).symm, hname, blank_nil⟩
  · exact ⟨name, _, rfl, hname, blank_line⟩

theorem OneLine.getLast?_ne (h : OneLine v) : v.getLast? ≠ some '\n' :=
  fun hend => (h '\n' (List.mem_of_getLast? hend)).1 rfl

theorem exists_lexes_fieldName (hkey : OneLine key) {rest : Text} (hrest : EndsWord rest) :
    ∃ kind, Lexes kind (fieldName key) rest := by
  unfold fieldName
  split
  next hline => exact ⟨.word, lexes_name (isName_of_isNameLine hline hkey.getLast?_ne) hrest⟩
  next => exact ⟨.string, lexes_stringLiteral hkey rest⟩

/-! ## Object literals -/

/-- The properties behind the opening brace of an object literal: names that are written out, and the words
that are their values. They take up the rest of the text. -/
def properties? : List (TokenKind × Text) → Option (List (List Nat × Text))
  | [(.mark, ['}'])] => some []
  | [(_, key), (.mark, [':']), (.word, value), (.mark, ['}'])] =>
    (propertyName? key).map fun units => [(units, value)]
  | (_, key) :: (.mark, [':']) :: (.word, value) :: (.mark, [',']) :: more =>
    (propertyName? key).bind fun units => (properties? more).map ((units, value) :: ·)
  | _ => none

/-- The properties of a text that is an object literal, each with a word for its value. -/
def objectLiteral? (t : Text) : Option (List (List Nat × Text)) :=
  match lexemes t with
  | (.mark, ['{']) :: more => properties? more
  | _ => none

theorem lexemes_name (hname : Text.isName name = true) (htail : Blank tail) :
    lexemes (name ++ tail) = [(.word, name)] := by
  have hends : EndsWord tail := by
    cases tail with
    | nil => exact fun c hc => nomatch hc
    | cons c more =>
      have hend := htail.endsWord (List.cons_ne_nil c more) []
      rwa [List.append_nil] at hend
  rw [lexemes_of_starts ⟨(List.nil_append _).symm, blank_nil, lexes_name hname hends⟩,
    lexemes_of_blank htail]

/-- The tokens of a body with a key: nothing of the key gets out of its quotes. -/
theorem lexemes_bodyExpression (hkey : p.key = some key) (hline : OneLine key)
    (hname : p.name = name ++ tail) (hisName : Text.isName name = true) (htail : Blank tail) :
    ∃ kind, lexemes (bodyExpression p) =
      [(.mark, ['{']), (kind, fieldName key), (.mark, [':']), (.word, name), (.mark, ['}'])] := by
  have htext : bodyExpression p
      = '{' :: ' ' :: (fieldName key ++ ':' :: ' ' :: (name ++ (tail ++ ' ' :: ['}']))) := by
    rw [bodyExpression, hkey, hname]
    simp [fieldName]
  have hblank : Blank (tail ++ [' ']) := htail.append blank_space
  have hcolon : EndsWord (':' :: ' ' :: (name ++ (tail ++ ' ' :: ['}']))) := endsWord_cons _ (by decide)
  have hbrace : EndsWord (tail ++ ' ' :: ['}']) := by
    have hend := hblank.endsWord (by simp) ['}']
    rwa [List.append_assoc] at hend
  obtain ⟨kind, hfield⟩ := exists_lexes_fieldName hline hcolon
  have hopen : Starts ('{' :: ' ' :: (fieldName key ++ ':' :: ' ' :: (name ++ (tail ++ ' ' :: ['}']))))
      .mark [] ['{'] _ := .before blank_nil (by decide) (by decide) _
  have hproperty : Starts (' ' :: (fieldName key ++ ':' :: ' ' :: (name ++ (tail ++ ' ' :: ['}']))))
      kind [' '] (fieldName key) _ := ⟨rfl, blank_space, hfield⟩
  have hmark : Starts (':' :: ' ' :: (name ++ (tail ++ ' ' :: ['}']))) .mark [] [':'] _ :=
    .lone blank_nil (by decide) _
  have hvalue : Starts (' ' :: (name ++ (tail ++ ' ' :: ['}']))) .word [' '] name _ :=
    ⟨rfl, blank_space, lexes_name hisName hbrace⟩
  have hclose : Starts (tail ++ ' ' :: ['}']) .mark (tail ++ [' ']) ['}'] [] := by
    have hlone := Starts.lone (c := '}') hblank (by decide) []
    rwa [List.append_assoc] at hlone
  refine ⟨kind, ?_⟩
  rw [htext, lexemes_of_starts hopen, lexemes_of_starts hproperty, lexemes_of_starts hmark,
    lexemes_of_starts hvalue, lexemes_of_starts hclose, lexemes_of_blank blank_nil]

theorem objectLiteral?_bodyExpression (hkey : p.key = some key) (hline : OneLine key)
    (hname : p.name = name ++ tail) (hisName : Text.isName name = true) (htail : Blank tail) :
    objectLiteral? (bodyExpression p) = some [(codeUnits key, name)] := by
  obtain ⟨kind, hlexemes⟩ := lexemes_bodyExpression hkey hline hname hisName htail
  have hproperty : propertyName? (fieldName key) = some (codeUnits key) :=
    (propertyName?_fieldName_iff hline.getLast?_ne).2 ⟨rfl, hline⟩
  rw [objectLiteral?, hlexemes]
  show properties? [(kind, fieldName key), _, _, _] = _
  rw [properties?, hproperty]
  rfl

/-- Quoting is exact: a quoted text is a literal of that text just where no line ends in it, so texts
without line ends are quoted apart; and a body with a key in which no line ends is an object literal with
that one property, whose value reads as the name of the parameter does. -/
theorem quoting_exact :
    (∀ v, stringLiteral v = '\x27' :: Text.replaceChar '\x27' ['\\', '\x27']
      (Text.replaceChar '\\' ['\\', '\\'] v) ++ ['\x27']) ∧
    (∀ v, Denotes (stringLiteral v) v ↔ OneLine v) ∧
    (∀ v w, OneLine v → OneLine w → stringLiteral v = stringLiteral w → v = w) ∧
    (∀ p key, Text.isNameLine p.name = true → p.key = some key → OneLine key →
      ∃ name, lexemes p.name = [(.word, name)] ∧
        objectLiteral? (bodyExpression p) = some [(codeUnits key, name)]) ∧
    ∀ (x : Extractor) (c : Controller), ∀ e ∈ x.extract c, ∀ p ∈ e.parameters, p.role = .body →
      Text.isNameLine p.name = true := by
  refine ⟨stringLiteral_eq_replacements, fun v => denotes_stringLiteral_iff,
    fun v w => stringLiteral_injective, ?_, ?_⟩
  · intro p key hname hkey hline
    obtain ⟨name, tail, hparts, hisName, htail⟩ := exists_name_of_isNameLine hname
    refine ⟨name, ?_, objectLiteral?_bodyExpression hkey hline hparts hisName htail⟩
    rw [hparts]
    exact lexemes_name hisName htail
  · intro x c e he p hp hrole
    have hkept : decide (p.role ≠ .ignored) = true := by rw [hrole]; rfl
    exact Extractor.isNameLine_of_mem_clientParameters he (List.mem_filter.2 ⟨hp, hkept⟩)

theorem quoting_exact_note :
    Denotes (stringLiteral "it's \\".toList) "it's \\".toList ∧
      ∃ c e p, Extractor.noteController = some c ∧ e ∈ Extractor.noteExtractor.extract c ∧
        p ∈ e.parameters ∧ p.role = .body ∧ ∃ name, lexemes p.name = [(.word, name)] ∧
          objectLiteral? (bodyExpression p) = some [(codeUnits "last-seen".toList, name)] := by
  obtain ⟨-, hdenotes, -, hbody, hnames⟩ := quoting_exact
  have hkeys : (Extractor.noteController.map fun c => (Extractor.noteExtractor.extract c).map fun e =>
      e.parameters.map fun p => (p.role, p.key)) = some [[(.query, some "it\\'s".toList),
        (.body, some "last-seen".toList)]] := by
    decide +kernel
  obtain ⟨c, hc, hendpoints⟩ := Option.map_eq_some_iff.1 hkeys
  obtain ⟨e, _, heq, hparameters, -⟩ := List.map_eq_cons_iff.1 hendpoints
  obtain ⟨_, _, hp, -, hrest⟩ := List.map_eq_cons_iff.1 hparameters
  obtain ⟨p, _, rfl, hboth, -⟩ := List.map_eq_cons_iff.1 hrest
  obtain ⟨hrole, hkey⟩ := Prod.mk.inj hboth
  have he : e ∈ Extractor.noteExtractor.extract c := heq ▸ List.mem_cons_self
  have hmem : p ∈ e.parameters := hp ▸ List.mem_cons_of_mem _ List.mem_cons_self
  exact ⟨(hdenotes _).2 (by decide), c, e, p, hc, he, hmem, hrole,
    hbody p _ (hnames _ c e he p hmem hrole) hkey (by decide)⟩

/-- A key that is no name is quoted. -/
example : objectLiteral? "\x7b 'it\\'s': seen \x7d".toList
    = some [(codeUnits "it's".toList, "seen".toList)] := by
  decide +kernel

end Client

end NestClient
