import Mathlib.Tactic.SplitIfs
import NestClient.Proofs.Text.Affix
import NestClient.TypeScript.Lexer

/-! Template literals as a reader of the generated code understands them: what an escape stands for,
and the characters and holes that a literal consists of. Holes hold dotted names only. -/

namespace NestClient.TypeScript

/-! ## Escapes -/

def hexValue (c : Char) : Nat :=
  if c.isDigit then c.toNat - '0'.toNat
  else if 'a' ≤ c then c.toNat - 'a'.toNat + 10
  else c.toNat - 'A'.toNat + 10

/-- The character whose code is written in hexadecimal digits, where that is one. -/
def charOfHex? (digits : Text) : Option Char :=
  let code := digits.foldl (fun n c => 16 * n + hexValue c) 0
  if h : code.isValidChar then some (Char.ofNatAux code h) else none

/-- What a backslash makes of the character behind it, where that needs no more characters. -/
def escapedChar (c : Char) : Char :=
  if c = 'n' then '\n' else if c = 'r' then '\r' else if c = 't' then '\t'
  else if c = 'b' then Char.ofNat 8 else if c = 'v' then Char.ofNat 11
  else if c = 'f' then Char.ofNat 12
  else c

/-- The text that an escape stands for, read behind its backslash, and what follows the escape. An
escaped line end stands for nothing. -/
def readEscape? : Text → Option (Text × Text)
  | [] => none
  | '\r' :: '\n' :: rest => some ([], rest)
  | c :: rest =>
    if endsLineComment c then some ([], rest)
    else if c = 'x' then
      if Lexer.hexDigits 2 rest = 2 then
        (charOfHex? (rest.take 2)).map fun d => ([d], rest.drop 2)
      else none
    else if c = 'u' then
      (Lexer.codeLength rest).bind fun n =>
        (charOfHex? ((rest.take n).filter Lexer.isHexDigit)).map fun d => ([d], rest.drop n)
    else if c = '0' && !rest.head?.any Char.isDigit then some ([Char.ofNat 0], rest)
    else if c.isDigit then none
    else some ([escapedChar c], rest)

theorem readEscape?_length {t value after : Text} (h : readEscape? t = some (value, after)) :
    after.length ≤ t.length := by
  unfold readEscape? at h
  split at h
  · simp at h
  · cases h
    simp
    omega
  · split_ifs at h
    · cases h
      simp
    · obtain ⟨d, -, hd⟩ := Option.map_eq_some_iff.1 h
      cases hd
      simp
      omega
    · obtain ⟨n, -, hn⟩ := Option.bind_eq_some_iff.1 h
      obtain ⟨d, -, hd⟩ := Option.map_eq_some_iff.1 hn
      cases hd
      simp
      omega
    · cases h
      simp
    · cases h
      simp

theorem readEscape?_self {c : Char} (hc : c = '\\' ∨ c = '\x60' ∨ c = '$') (rest : Text) :
    readEscape? (c :: rest) = some ([c], rest) := by
  rcases hc with rfl | rfl | rfl <;> rfl

/-! ## Names -/

def isIdentifier : Text → Bool
  | [] => false
  | c :: rest => isWordStart c && rest.all isWordChar

def isDottedName (t : Text) : Bool := (Text.split '.' t).all isIdentifier

theorem isWordChar_of_isWordStart {c : Char} (h : isWordStart c = true) : isWordChar c = true := by
  simp only [isWordStart, Bool.and_eq_true] at h
  exact h.1

theorem isWordChar_of_mem_identifier {t : Text} (h : isIdentifier t = true) {c : Char} (hc : c ∈ t) :
    isWordChar c = true := by
  cases t with
  | nil => simp at hc
  | cons d rest =>
    simp only [isIdentifier, Bool.and_eq_true, List.all_eq_true] at h
    rcases List.mem_cons.1 hc with rfl | hc
    · exact isWordChar_of_isWordStart h.1
    · exact h.2 c hc

theorem not_mem_identifier {t : Text} (h : isIdentifier t = true) {c : Char}
    (hc : c ∈ nameBreakers) : c ∉ t := by
  intro hm
  have hw := isWordChar_of_mem_identifier h hm
  simp only [isWordChar, Bool.and_eq_true, Bool.not_eq_true', List.contains_eq_mem,
    decide_eq_false_iff_not] at hw
  exact hw.2 hc

theorem isDottedName_of_isIdentifier {t : Text} (h : isIdentifier t = true) :
    isDottedName t = true := by
  have hdot : '.' ∉ t := not_mem_identifier h (by decide)
  simp [isDottedName, Text.split_of_not_mem hdot, h]

/-! ## Literals -/

/-- A part of a template literal: a character of its text, or the expression in a hole. -/
inductive LiteralPart where
  | char (c : Char)
  | hole (expression : Text)
  deriving DecidableEq, Repr

/-- The parts of a template literal after its opening backtick. The literal has to end with the text.
A line end counts as a line feed, whatever its kind. -/
def readParts? : Text → Option (List LiteralPart)
  | [] => none
  | c :: rest =>
    if c = '\x60' then if rest.isEmpty then some [] else none
    else if c = '\\' then
      match _h : readEscape? rest with
      | some (value, after) => (readParts? after).map (value.map .char ++ ·)
      | none => none
    else if c = '$' && rest.head? = some '{' then
      let inner := (rest.drop 1).takeWhile (· ≠ '}')
      if isDottedName inner && (rest.drop (1 + inner.length)).head? = some '}' then
        (readParts? (rest.drop (2 + inner.length))).map (.hole inner :: ·)
      else none
    else if c = '\r' then
      if rest.head? = some '\n' then readParts? rest
      else (readParts? rest).map (.char '\n' :: ·)
    else (readParts? rest).map (.char c :: ·)
termination_by t => t.length
decreasing_by
  all_goals simp only [List.length_cons, List.length_drop]
  · have := readEscape?_length _h
    omega
  all_goals omega

/-- The parts of a text that is one template literal. -/
def readTemplateLiteral? : Text → Option (List LiteralPart)
  | '\x60' :: rest => readParts? rest
  | _ => none

theorem readParts?_end : readParts? ['\x60'] = some [] := by
  rw [readParts?]
  simp

theorem readParts?_escape {c : Char} (hc : c = '\\' ∨ c = '\x60' ∨ c = '$') (rest : Text) :
    readParts? ('\\' :: c :: rest) = (readParts? rest).map (.char c :: ·) := by
  have h := readEscape?_self hc rest
  rw [readParts?]
  simp only [show '\\' ≠ '\x60' by decide, ↓reduceIte]
  split
  · next value after he =>
    rw [h] at he
    simp only [Option.some.injEq, Prod.mk.injEq] at he
    rw [← he.1, ← he.2]
    rfl
  · next he => simp [h] at he

theorem readParts?_char {c : Char} {rest : Text} (hb : c ≠ '\x60') (hs : c ≠ '\\') (hr : c ≠ '\r')
    (hd : ¬(c = '$' ∧ rest.head? = some '{')) :
    readParts? (c :: rest) = (readParts? rest).map (.char c :: ·) := by
  have hd' : (decide (c = '$') && decide (rest.head? = some '{')) = false := by
    rw [Bool.and_eq_false_iff, decide_eq_false_iff_not, decide_eq_false_iff_not]
    exact Classical.not_and_iff_not_or_not.1 hd
  rw [readParts?]
  simp [hb, hs, hr, hd']

theorem readParts?_hole {name : Text} (hn : isDottedName name = true) (hc : '}' ∉ name) (rest : Text) :
    readParts? ('$' :: '{' :: name ++ '}' :: rest) = (readParts? rest).map (.hole name :: ·) := by
  have hall : ∀ c ∈ name, decide (c ≠ '}') = true := by
    intro c hm
    rw [decide_eq_true_eq]
    rintro rfl
    exact hc hm
  have hw : (name ++ '}' :: rest).takeWhile (fun c => decide (c ≠ '}')) = name := by
    rw [List.takeWhile_append_of_pos hall]
    simp
  have hdrop : ('{' :: (name ++ '}' :: rest)).drop (1 + name.length) = '}' :: rest := by
    rw [Nat.add_comm, List.drop_succ_cons, List.drop_left']
    rfl
  have hdrop' : ('{' :: (name ++ '}' :: rest)).drop (2 + name.length) = rest := by
    have h2 : 2 + name.length = 1 + (1 + name.length) := by omega
    rw [h2, Nat.add_comm 1, ← List.drop_drop, hdrop]
    rfl
  rw [List.cons_append, List.cons_append, readParts?]
  simp only [show ('$' : Char) ≠ '\x60' by decide, show ('$' : Char) ≠ '\\' by decide, ↓reduceIte,
    List.head?_cons, decide_true, Bool.and_self, List.drop_succ_cons, List.drop_zero, hw]
  rw [hdrop, hdrop']
  simp [hn]

end NestClient.TypeScript
