import NestClient.Proofs.Text.Trim
import NestClient.Proofs.TypeScript.TemplateLiteral
import NestClient.TypeScript.Reader

/-! String literals as a reader of TypeScript understands them: the code units that stand for the
characters and escapes between the quotes.

* `spells_of_stringValue?`: an escape always shows more than it stands for.
* `Spells.value_eq_iff`: the trimmed text between the quotes is the value only where nothing is escaped
  and nothing is trimmed. -/

namespace NestClient.TypeScript

variable {quote : Char} {c : Char} {t raw after written : Text} {units : List Nat}

/-! ## Code units -/

/-- The code units of a character of this code. -/
def unitsOf (code : Nat) : List Nat :=
  if code < 65536 then [code] else [55296 + (code - 65536) / 1024, 56320 + (code - 65536) % 1024]

/-- The string value of a text. -/
def codeUnits (t : Text) : List Nat := t.flatMap fun c => unitsOf c.toNat

def isBlankUnit (u : Nat) : Bool := blankRanges.any fun (low, high) => low ≤ u && u ≤ high

def visible (units : List Nat) : Nat := units.countP fun u => !isBlankUnit u

theorem codeUnits_cons (c : Char) (t : Text) : codeUnits (c :: t) = unitsOf c.toNat ++ codeUnits t :=
  List.flatMap_cons

theorem codeUnits_append (s t : Text) : codeUnits (s ++ t) = codeUnits s ++ codeUnits t :=
  List.flatMap_append

theorem visible_append (us vs : List Nat) : visible (us ++ vs) = visible us + visible vs :=
  List.countP_append

theorem visible_le_length (us : List Nat) : visible us ≤ us.length := List.countP_le_length

theorem length_unitsOf_le (code : Nat) : (unitsOf code).length ≤ 2 := by
  unfold unitsOf
  split <;> simp

theorem length_unitsOf_pos (code : Nat) : 0 < (unitsOf code).length := by
  unfold unitsOf
  split <;> simp

theorem not_isBlankUnit_of_lt {u : Nat} (h : 12288 < u) : isBlankUnit u = false := by
  have hsmall : ∀ range ∈ blankRanges, range.2 ≤ 12288 := by decide
  rw [isBlankUnit, List.any_eq_false]
  intro range hrange
  have hle := hsmall range hrange
  simp only [Bool.and_eq_true, decide_eq_true_eq, not_and]
  omega

theorem visible_unitsOf_blank (hc : isBlank c = true) : visible (unitsOf c.toNat) = 0 := by
  have hunit : isBlankUnit c.toNat = true := hc
  have hsmall : c.toNat < 65536 := by
    refine Nat.lt_of_not_le fun hlarge => ?_
    rw [not_isBlankUnit_of_lt (by omega)] at hunit
    cases hunit
  rw [unitsOf, if_pos hsmall, visible, List.countP_singleton, hunit]
  rfl

theorem visible_unitsOf_pos (hc : isBlank c = false) : 0 < visible (unitsOf c.toNat) := by
  have hunit : isBlankUnit c.toNat = false := hc
  unfold unitsOf
  split
  · rw [visible, List.countP_singleton, hunit]
    exact Nat.one_pos
  · rw [visible, List.countP_cons, not_isBlankUnit_of_lt (by omega)]
    simp

theorem visible_cons_pos (hc : isBlank c = false) (t : Text) : 0 < visible (codeUnits (c :: t)) := by
  rw [codeUnits_cons, visible_append]
  exact Nat.lt_of_lt_of_le (visible_unitsOf_pos hc) (Nat.le_add_right _ _)

theorem visible_blanks (h : ∀ c ∈ t, isBlank c = true) : visible (codeUnits t) = 0 := by
  induction t with
  | nil => rfl
  | cons c rest ih =>
    rw [codeUnits_cons, visible_append, visible_unitsOf_blank (h c List.mem_cons_self),
      ih fun d hd => h d (List.mem_cons_of_mem c hd)]

theorem visible_trim (t : Text) : visible (codeUnits (Text.trim t)) = visible (codeUnits t) := by
  obtain ⟨lead, tail, ht, hlead, htail⟩ := Text.exists_trim t
  have hvisible : visible (codeUnits t) = _ := congrArg (fun text => visible (codeUnits text)) ht
  rw [codeUnits_append, codeUnits_append, visible_append, visible_append, visible_blanks hlead,
    visible_blanks htail] at hvisible
  omega

theorem length_le_codeUnits (t : Text) : t.length ≤ (codeUnits t).length := by
  induction t with
  | nil => exact Nat.le_refl 0
  | cons c rest ih =>
    have hpos := length_unitsOf_pos c.toNat
    rw [codeUnits_cons, List.length_append, List.length_cons]
    omega

/-- Trimming that leaves the value as it is takes nothing away. -/
theorem trim_eq_of_codeUnits (h : codeUnits (Text.trim t) = codeUnits t) : Text.trim t = t := by
  obtain ⟨lead, tail, ht, -, -⟩ := Text.exists_trim t
  have hlength : (codeUnits t).length = _ := congrArg (fun text => (codeUnits text).length) ht
  rw [codeUnits_append, codeUnits_append, List.length_append, List.length_append, h] at hlength
  have hlead := length_le_codeUnits lead
  have htail := length_le_codeUnits tail
  obtain rfl := List.length_eq_zero_iff.1 (show lead.length = 0 by omega)
  obtain rfl := List.length_eq_zero_iff.1 (show tail.length = 0 by omega)
  rw [List.nil_append, List.append_nil] at ht
  exact ht.symm

/-! ## Escapes -/

def hexCode (digits : Text) : Nat := digits.foldl (fun n c => 16 * n + hexValue c) 0

/-- The code units that an escape stands for, read behind its backslash, and what follows the escape. An
escaped line end stands for nothing. -/
def escapeUnits? : Text → Option (List Nat × Text)
  | [] => none
  | '\r' :: '\n' :: rest => some ([], rest)
  | c :: rest =>
    if endsLineComment c then some ([], rest)
    else if c = 'x' then
      if Lexer.hexDigits 2 rest = 2 then some ([hexCode (rest.take 2)], rest.drop 2) else none
    else if c = 'u' then
      (Lexer.codeLength rest).bind fun n =>
        let code := hexCode ((rest.take n).filter Lexer.isHexDigit)
        if code < 1114112 then some (unitsOf code, rest.drop n) else none
    else if c = '0' && !rest.head?.any Char.isDigit then some ([0], rest)
    else if c.isDigit then none
    else some (unitsOf (escapedChar c).toNat, rest)

/-- A character behind a backslash shows at least what it stands for there. -/
theorem visible_escapedChar (c : Char) :
    visible (unitsOf (escapedChar c).toNat) ≤ visible (unitsOf c.toNat) := by
  unfold escapedChar
  split_ifs
  case neg => exact Nat.le_refl _
  all_goals
    subst c
    decide

theorem not_isBlank_of_isHexDigit (h : Lexer.isHexDigit c = true) : isBlank c = false := by
  have hnat : c.val.toNat = c.toNat := rfl
  have hrange : 33 ≤ c.toNat ∧ c.toNat < 127 := by
    have hbounds : '0'.val.toNat = 48 ∧ '9'.val.toNat = 57 ∧ 'a'.val.toNat = 97 ∧ 'f'.val.toNat = 102 ∧
        'A'.val.toNat = 65 ∧ 'F'.val.toNat = 70 := by decide
    simp only [Lexer.isHexDigit, Char.isDigit, Bool.or_eq_true, Bool.and_eq_true, decide_eq_true_eq,
      Char.le_def, UInt32.le_iff_toNat_le, ge_iff_le] at h
    omega
  rw [isBlank, CodeRanges.contains, List.any_eq_false]
  have hranges : ∀ range ∈ blankRanges, range.2 < 33 ∨ 127 ≤ range.1 := by decide
  intro range hrange'
  have hout := hranges range hrange'
  simp only [Bool.and_eq_true, decide_eq_true_eq, not_and]
  omega

theorem visible_code {n : Nat} (h : Lexer.codeLength t = some n) :
    0 < visible (codeUnits (t.take n)) := by
  unfold Lexer.codeLength at h
  split at h
  · next rest =>
    dsimp only at h
    split at h
    · obtain rfl := Option.some.inj h
      exact visible_cons_pos (by decide) _
    · cases h
  · split at h
    · next hdigits =>
      obtain rfl := Option.some.inj h
      cases t with
      | nil => cases hdigits
      | cons c rest =>
        have hc : Lexer.isHexDigit c = true := by
          by_cases hc : Lexer.isHexDigit c = true
          · exact hc
          · rw [Lexer.hexDigits, List.take_succ_cons, List.takeWhile_cons_of_neg hc] at hdigits
            cases hdigits
        exact visible_cons_pos (not_isBlank_of_isHexDigit hc) _
    · cases h

/-- No escape stands for more than what is written behind its backslash. -/
theorem visible_escapeUnits? (h : escapeUnits? t = some (units, after)) :
    ∃ written, t = written ++ after ∧ visible units ≤ visible (codeUnits written) := by
  unfold escapeUnits? at h
  split at h
  · simp at h
  · cases h
    exact ⟨['\r', '\n'], rfl, Nat.zero_le _⟩
  next c rest _ =>
  split_ifs at h with hend hx hdigits hu hzero hdigit
  · cases h
    exact ⟨[c], rfl, Nat.zero_le _⟩
  · cases h
    refine ⟨'x' :: rest.take 2, by rw [hx, List.cons_append, List.take_append_drop], ?_⟩
    exact Nat.le_trans (visible_le_length _) (visible_cons_pos (by decide) _)
  · obtain ⟨n, hn, hcode⟩ := Option.bind_eq_some_iff.1 h
    dsimp only at hcode
    split at hcode
    · cases hcode
      refine ⟨'u' :: rest.take n, by rw [hu, List.cons_append, List.take_append_drop], ?_⟩
      have hmark : 0 < visible (unitsOf 'u'.toNat) := by decide
      have hdigits := visible_code hn
      rw [codeUnits_cons, visible_append]
      exact Nat.le_trans (Nat.le_trans (visible_le_length _) (length_unitsOf_le _)) (by omega)
    · cases hcode
  · cases h
    rw [Bool.and_eq_true, decide_eq_true_eq] at hzero
    refine ⟨[c], rfl, Nat.le_trans (visible_le_length _) ?_⟩
    rw [hzero.1]
    exact visible_cons_pos (by decide) []
  · cases h
    refine ⟨[c], rfl, ?_⟩
    rw [codeUnits_cons]
    exact Nat.le_trans (visible_escapedChar c) (by rw [visible_append]; omega)

theorem length_escapeUnits? (h : escapeUnits? t = some (units, after)) : after.length ≤ t.length := by
  obtain ⟨written, rfl, -⟩ := visible_escapeUnits? h
  rw [List.length_append]
  omega

/-! ## Literals -/

/-- The code units of a string literal behind its opening quote. The literal has to end with the text, and
no line ends in it that is not escaped. -/
def literalUnits? (quote : Char) : Text → Option (List Nat)
  | [] => none
  | c :: rest =>
    if c = quote then if rest.isEmpty then some [] else none
    else if c = '\\' then
      match _h : escapeUnits? rest with
      | some (units, after) => (literalUnits? quote after).map (units ++ ·)
      | none => none
    else if c = '\n' || c = '\r' then none
    else (literalUnits? quote rest).map (unitsOf c.toNat ++ ·)
termination_by t => t.length
decreasing_by
  · have := length_escapeUnits? _h
    simp only [List.length_cons]
    omega
  · simp

theorem literalUnits?_end (quote : Char) : literalUnits? quote [quote] = some [] := by
  rw [literalUnits?, if_pos rfl]
  rfl

theorem literalUnits?_escape (hquote : quote ≠ '\\') (h : escapeUnits? t = some (units, after)) :
    literalUnits? quote ('\\' :: t) = (literalUnits? quote after).map (units ++ ·) := by
  rw [literalUnits?, if_neg (Ne.symm hquote), if_pos rfl]
  split
  next units' after' hread =>
    rw [h] at hread
    obtain ⟨rfl, rfl⟩ := Prod.mk.inj (Option.some.inj hread)
    rfl
  next hread => rw [h] at hread; cases hread

theorem literalUnits?_line (hquote : c ≠ quote) (hline : c = '\n' ∨ c = '\r') (rest : Text) :
    literalUnits? quote (c :: rest) = none := by
  have hslash : c ≠ '\\' := by rcases hline with rfl | rfl <;> decide
  rw [literalUnits?, if_neg hquote, if_neg hslash, if_pos (by simpa using hline)]

theorem literalUnits?_char (hquote : c ≠ quote) (hslash : c ≠ '\\') (hline : ¬(c = '\n' ∨ c = '\r'))
    (rest : Text) :
    literalUnits? quote (c :: rest) = (literalUnits? quote rest).map (unitsOf c.toNat ++ ·) := by
  rw [literalUnits?, if_neg hquote, if_neg hslash, if_neg (by simpa using hline)]

/-- The value of a text that is one string literal, in code units. -/
def stringValue? : Text → Option (List Nat)
  | quote :: rest => if quote = '"' || quote = '\x27' then literalUnits? quote rest else none
  | [] => none

theorem unquote_of_quotes (hquote : isQuoteMark quote = true) (raw : Text) :
    unquote (quote :: (raw ++ [quote])) = raw := by
  have hvisible : isBlank quote = false := by
    simp only [isQuoteMark, Bool.or_eq_true, decide_eq_true_eq] at hquote
    rcases hquote with (rfl | rfl) | rfl <;> decide
  have htrim : Text.trim (quote :: (raw ++ [quote])) = quote :: (raw ++ [quote]) := by
    refine Text.trimBy_eq_self (fun c hc => ?_) fun c hc => ?_
    · obtain rfl : quote = c := Option.some.inj hc
      exact hvisible
    · rw [← List.cons_append, List.getLast?_concat] at hc
      obtain rfl : quote = c := Option.some.inj hc
      exact hvisible
  rw [unquote, htrim]
  simp [hquote]

/-- What a value has to do with the text between the quotes of its literal: with escapes that text shows
more than the value does, and without them it is the value. -/
structure Spells (raw : Text) (units : List Nat) : Prop where
  escaped : '\\' ∈ raw → visible units < visible (codeUnits raw)
  plain : '\\' ∉ raw → units = codeUnits raw ∧ ∀ c ∈ raw, c ≠ '\n' ∧ c ≠ '\r'

namespace Spells

theorem visible_le (h : Spells raw units) : visible units ≤ visible (codeUnits raw) := by
  by_cases hescape : '\\' ∈ raw
  · exact Nat.le_of_lt (h.escaped hescape)
  · exact Nat.le_of_eq (congrArg visible (h.plain hescape).1)

theorem nil : Spells [] [] := ⟨fun h => absurd h List.not_mem_nil, fun _ => ⟨rfl, by simp⟩⟩

theorem char (hslash : c ≠ '\\') (hline : c ≠ '\n' ∧ c ≠ '\r') (h : Spells raw units) :
    Spells (c :: raw) (unitsOf c.toNat ++ units) := by
  constructor
  · intro hmem
    have hless := h.escaped ((List.mem_cons.1 hmem).resolve_left (Ne.symm hslash))
    rw [codeUnits_cons, visible_append, visible_append]
    omega
  · intro hmem
    obtain ⟨rfl, hlines⟩ := h.plain fun hraw => hmem (List.mem_cons_of_mem c hraw)
    exact ⟨(codeUnits_cons c raw).symm, List.forall_mem_cons.2 ⟨hline, hlines⟩⟩

theorem escape {more : List Nat} (hwritten : visible units ≤ visible (codeUnits written))
    (h : Spells raw more) : Spells ('\\' :: (written ++ raw)) (units ++ more) := by
  refine ⟨fun _ => ?_, fun hmem => absurd List.mem_cons_self hmem⟩
  have hslash : visible (unitsOf '\\'.toNat) = 1 := by decide
  have hmore := h.visible_le
  rw [codeUnits_cons, codeUnits_append, visible_append, visible_append, visible_append, hslash]
  omega

end Spells

/-- A literal is read up to its closing quote, which ends the text. -/
theorem spells_of_literalUnits? (h : literalUnits? quote t = some units) :
    ∃ raw, t = raw ++ [quote] ∧ Spells raw units := by
  induction hn : t.length using Nat.strongRecOn generalizing t units with
  | ind n ih =>
    cases t with
    | nil => rw [literalUnits?] at h; cases h
    | cons c rest =>
      have hless : rest.length < n := by rw [← hn, List.length_cons]; omega
      rw [literalUnits?] at h
      split_ifs at h with hquote hend hslash hline
      · cases h
        exact ⟨[], by rw [hquote, List.isEmpty_iff.1 hend, List.nil_append], .nil⟩
      · split at h
        · next escaped after hread =>
          obtain ⟨more, hmore, rfl⟩ := Option.map_eq_some_iff.1 h
          have hafter := length_escapeUnits? hread
          obtain ⟨raw, rfl, hraw⟩ := ih after.length (by omega) hmore rfl
          obtain ⟨written, rfl, hwritten⟩ := visible_escapeUnits? hread
          refine ⟨'\\' :: (written ++ raw), ?_, .escape hwritten hraw⟩
          rw [hslash, List.cons_append, List.append_assoc]
        · cases h
      · obtain ⟨more, hmore, rfl⟩ := Option.map_eq_some_iff.1 h
        obtain ⟨raw, rfl, hraw⟩ := ih rest.length hless hmore rfl
        rw [Bool.or_eq_true, decide_eq_true_eq, decide_eq_true_eq, not_or] at hline
        exact ⟨c :: raw, rfl, .char hslash hline hraw⟩

theorem spells_of_stringValue? (h : stringValue? t = some units) :
    ∃ quote raw, t = quote :: (raw ++ [quote]) ∧ (quote = '"' ∨ quote = '\x27') ∧ Spells raw units := by
  cases t with
  | nil => cases h
  | cons quote rest =>
    rw [stringValue?] at h
    split at h
    next hquote =>
      obtain ⟨raw, rfl, hraw⟩ := spells_of_literalUnits? h
      rw [Bool.or_eq_true, decide_eq_true_eq, decide_eq_true_eq] at hquote
      exact ⟨quote, raw, rfl, hquote, hraw⟩
    next => cases h

/-- The trimmed text between the quotes of a literal is its value where nothing in it is escaped and
nothing around it is trimmed. -/
theorem Spells.value_eq_iff (h : Spells raw units) :
    units = codeUnits (Text.trim raw) ↔ '\\' ∉ raw ∧ Text.trim raw = raw := by
  constructor
  · intro heq
    have hplain : '\\' ∉ raw := by
      intro hescape
      have hless := h.escaped hescape
      rw [heq, visible_trim] at hless
      exact absurd hless (Nat.lt_irrefl _)
    exact ⟨hplain, trim_eq_of_codeUnits (heq.symm.trans (h.plain hplain).1)⟩
  · rintro ⟨hplain, htrim⟩
    rw [htrim, (h.plain hplain).1]

end NestClient.TypeScript
