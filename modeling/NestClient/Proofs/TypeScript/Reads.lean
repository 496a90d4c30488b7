import NestClient.Proofs.TypeScript.Lexing
import NestClient.Proofs.TypeScript.PrintedTree
import NestClient.TypeScript.Grammar.Cursor

/-! What a reader does on a text that it accepts: it gives a result, leaves the rest of the text, and
has read what lies between as leaves. One rule for each way in which readers are put together says how
it follows from what their parts do. -/

namespace NestClient.TypeScript

theorem Name.eq_of_text {a b : Name} (h : a.text = b.text) : a = b := by
  cases a
  cases b
  cases h
  rfl

/-! ## Tests on tokens -/

section Tests

variable {kind : TokenKind} {lead word : Text} {line place : Nat}

@[simp]
theorem isMark_mark (m : String) :
    isMark m ⟨.mark, lead, word, line, place⟩ = decide (word = m.toList) := by simp [isMark]

@[simp]
theorem isMark_word (m : String) : isMark m ⟨.word, lead, word, line, place⟩ = false := rfl

@[simp]
theorem isMark_string (m : String) : isMark m ⟨.string, lead, word, line, place⟩ = false := rfl

@[simp]
theorem startsMark_mark (c : Char) :
    startsMark c ⟨.mark, lead, word, line, place⟩ = decide (word.head? = some c) := by simp [startsMark]

@[simp]
theorem startsMark_word (c : Char) : startsMark c ⟨.word, lead, word, line, place⟩ = false := rfl

@[simp]
theorem startsMark_string (c : Char) : startsMark c ⟨.string, lead, word, line, place⟩ = false := rfl

@[simp]
theorem isOneOfMarks_mark (ms : List String) :
    isOneOfMarks ms ⟨.mark, lead, word, line, place⟩ = ms.any fun m => word = m.toList := by
  simp [isOneOfMarks]

@[simp]
theorem isOneOfMarks_word (ms : List String) :
    isOneOfMarks ms ⟨.word, lead, word, line, place⟩ = false := rfl

@[simp]
theorem isOneOfMarks_string (ms : List String) :
    isOneOfMarks ms ⟨.string, lead, word, line, place⟩ = false := rfl

@[simp]
theorem isKeyword_mark (w : String) : isKeyword w ⟨.mark, lead, word, line, place⟩ = false := rfl

@[simp]
theorem isKeyword_string (w : String) : isKeyword w ⟨.string, lead, word, line, place⟩ = false := rfl

@[simp]
theorem isKeyword_word (w : String) :
    isKeyword w ⟨.word, lead, word, line, place⟩ = decide (word = w.toList) := by simp [isKeyword]

@[simp]
theorem isOneOfWords_mark (ws : List String) :
    isOneOfWords ws ⟨.mark, lead, word, line, place⟩ = false := rfl

@[simp]
theorem isOneOfWords_word (ws : List String) :
    isOneOfWords ws ⟨.word, lead, word, line, place⟩ = ws.any fun w => word = w.toList := by
  simp [isOneOfWords]

end Tests

/-- An identifier is no word of the language. -/
theorem Printed.Identifier.text_ne (i : Printed.Identifier) {w : String}
    (hw : w ∈ Printed.languageWords) : i.text ≠ w.toList := fun h =>
  i.free (h ▸ List.mem_map_of_mem hw)

theorem Printed.Identifier.length_pos (i : Printed.Identifier) : 0 < i.text.length := by
  have hstart := i.start
  cases htext : i.text with
  | nil => simp [htext] at hstart
  | cons d more => simp

theorem Printed.Identifier.isKeyword (i : Printed.Identifier) {w : String} {lead : Text}
    {line place : Nat} (hw : w ∈ Printed.languageWords) :
    isKeyword w ⟨.word, lead, i.text, line, place⟩ = false := by simp [i.text_ne hw]

theorem Printed.Identifier.isOneOfWords (i : Printed.Identifier) {ws : List String} {lead : Text}
    {line place : Nat} (hws : ∀ w ∈ ws, w ∈ Printed.languageWords) :
    isOneOfWords ws ⟨.word, lead, i.text, line, place⟩ = false := by
  rw [isOneOfWords_word]
  exact List.any_eq_false.2 fun w hw => by simpa using i.text_ne (hws w hw)

theorem Printed.Identifier.isOwnMark_head (i : Printed.Identifier) {c : Char}
    (hc : c ∈ Lexer.shortMarks) (hslash : c ≠ '/') (rest : Text) :
    isOwnMark c (i.text ++ rest).head? = true := by
  have hstart := i.start
  cases htext : i.text with
  | nil => simp [htext] at hstart
  | cons d more =>
    rw [htext] at hstart
    exact isOwnMark_of_isWordStart hc hslash hstart

/-! ## The first token of a text -/

/-- The text is blanks, a token and more text. -/
structure Starts (t : Text) (kind : TokenKind) (lead word rest : Text) : Prop where
  text : t = lead ++ (word ++ rest)
  blank : Blank lead
  lexes : Lexes kind word rest

namespace Starts

variable {t lead word rest : Text} {kind : TokenKind}

theorem trivia (h : Starts t kind lead word rest) :
    Lexer.trivia .blank t = (lead, word ++ rest) := by
  obtain ⟨c, hc, hsolid⟩ := h.lexes.solid
  rw [h.text]
  refine trivia_append h.blank fun d hd => ?_
  obtain rfl : c = d := by
    rw [List.head?_append, hc] at hd
    exact Option.some.inj hd
  exact hsolid

theorem token (h : Starts t kind lead word rest) (line place : Nat) :
    Lexer.token line place [] t
      = (⟨kind, lead, word, line + lineCount lead, place + lead.length⟩, rest) := by
  simp [Lexer.token, h.trivia, h.lexes.tokenAt]

/-- More blanks before a token belong to it. -/
theorem behind {more : Text} (h : Starts t kind lead word rest) (hmore : Blank more) :
    Starts (more ++ t) kind (more ++ lead) word rest where
  text := by rw [h.text, List.append_assoc]
  blank := hmore.append h.blank
  lexes := h.lexes

theorem mark {c : Char} (hlead : Blank lead) (h : isOwnMark c rest.head? = true) :
    Starts (lead ++ c :: rest) .mark lead [c] rest :=
  ⟨rfl, hlead, .mark h⟩

theorem lone {c : Char} (hlead : Blank lead) (hc : c ∈ loneMarks) (rest : Text) :
    Starts (lead ++ c :: rest) .mark lead [c] rest :=
  mark hlead (isOwnMark_of_lone hc _)

theorem before {c d : Char} (hlead : Blank lead) (hc : c ∈ stemMarks) (hd : d ∈ separators) (rest : Text) :
    Starts (lead ++ c :: d :: rest) .mark lead [c] (d :: rest) :=
  mark hlead (isOwnMark_separator hc hd)

/-- An angle bracket begins a mark, of which it may be a part only. -/
theorem angle (hlead : Blank lead) (rest : Text) :
    ∃ more after, rest = more ++ after ∧ Starts (lead ++ '>' :: rest) .mark lead ('>' :: more) after := by
  obtain ⟨more, after, rfl, hlex⟩ := Lexes.angle rest
  exact ⟨more, after, rfl, rfl, hlead, hlex⟩

theorem name (i : Printed.Identifier) (hlead : Blank lead) (hrest : EndsWord rest) :
    Starts (lead ++ (i.text ++ rest)) .word lead i.text rest :=
  ⟨rfl, hlead, .word i.start (fun _ hc => (i.mem_chars hc).1) hrest⟩

def isWordText (t : Text) : Bool := t.head?.any isWordStart && t.all isWordChar

/-- The keywords of written declarations. -/
def keywords : List String := ["import", "from", "as", "export", "class", "const"]

theorem keyword {w : String} (hlead : Blank lead) (hw : w ∈ keywords) (hrest : EndsWord rest) :
    Starts (lead ++ (w.toList ++ rest)) .word lead w.toList rest := by
  have hall : (keywords.all fun w => isWordText w.toList) = true := by decide
  have hword := List.all_eq_true.1 hall w hw
  rw [isWordText, Bool.and_eq_true] at hword
  exact ⟨rfl, hlead, .word hword.1 (List.all_eq_true.1 hword.2) hrest⟩

theorem string (v : Printed.StringValue) (hlead : Blank lead) (rest : Text) :
    Starts (lead ++ (v.quoted ++ rest)) .string lead v.quoted rest := by
  refine ⟨rfl, hlead, .string (.inr rfl) (fun _ hc => ?_) rest⟩
  simpa using List.all_eq_true.1 v.plain _ hc

end Starts

/-- The first token of the text passes a test or fails it, wherever it stands. -/
def Next (test : Token → Bool) (t : Text) (b : Bool) : Prop :=
  ∃ kind lead word rest, Starts t kind lead word rest
    ∧ ∀ line place, test ⟨kind, lead, word, line, place⟩ = b

/-! ## Lines -/

/-- No semicolon is left out before the text. -/
def Stays (t : Text) : Prop := ∀ e : Ending, e.leftOut t = false

theorem stays_of_solid {c : Char} {rest : Text} (lead : Text) (hlead : ∀ d ∈ lead, d = ' ')
    (hspace : isSpace c = false) (hslash : c ≠ '/') (hclose : c ≠ '}') :
    Stays (lead ++ c :: rest) := by
  intro e
  have hline : c ≠ '\n' := fun h => absurd hspace (by rw [h]; decide)
  have hrest : LineEnd.rest true .blank (lead ++ c :: rest) = .more (c :: rest) := by
    induction lead with
    | nil =>
      rw [List.nil_append, LineEnd.rest]
      simp [hspace, hslash, hline]
    | cons d lead ih =>
      obtain rfl : d = ' ' := hlead d List.mem_cons_self
      rw [List.cons_append, LineEnd.rest]
      have hblank : isSpace ' ' = true := by decide
      have hwhite : LineEnd.isLineSpace ' ' = true := by decide
      simpa [hblank, hwhite] using ih fun d hd => hlead d (List.mem_cons_of_mem _ hd)
  rw [Ending.leftOut, hrest]
  simp [hclose]

/-! ## Cursors -/

/-- The source of a leaf with the blanks before it. -/
def Leaf.source (leaf : Leaf) : Text := leaf.token.trivia ++ leaf.token.text

namespace Cursor

/-- The cursor stands before a text, and all that it has read lies behind it. -/
structure Stands (c : Cursor) (t : Text) : Prop where
  lexed : ∃ line place, Lexer.token line place [] t = (c.next, c.rest)
  behind : ∀ leaf, c.read.head? = some leaf → leaf.token.place < c.next.place

/-- One cursor comes from another by reading some leaves. -/
structure Moves (c after : Cursor) (leaves : List Leaf) : Prop where
  read : after.read = leaves.reverse ++ c.read
  place : c.next.place ≤ after.next.place
  places : ∀ leaf ∈ leaves, c.next.place ≤ leaf.token.place
  lead : ∀ leaf, leaves.head? = some leaf → leaf.token.trivia = c.next.trivia
  still : leaves = [] → after = c

namespace Moves

theorem refl (c : Cursor) : c.Moves c [] :=
  ⟨rfl, Nat.le_refl _, fun _ h => absurd h List.not_mem_nil, fun _ h => by simp at h, fun _ => rfl⟩

theorem trans {c mid after : Cursor} {first second : List Leaf} (h : c.Moves mid first)
    (h' : mid.Moves after second) : c.Moves after (first ++ second) where
  read := by rw [h'.read, h.read, List.reverse_append, List.append_assoc]
  place := Nat.le_trans h.place h'.place
  places leaf hleaf := by
    rcases List.mem_append.1 hleaf with hleaf | hleaf
    · exact h.places leaf hleaf
    · exact Nat.le_trans h.place (h'.places leaf hleaf)
  lead leaf hleaf := by
    cases first with
    | nil => rw [h'.lead leaf hleaf, h.still rfl]
    | cons l first => exact h.lead leaf hleaf
  still hnone := by
    obtain ⟨hfirst, hsecond⟩ := List.append_eq_nil_iff.1 hnone
    rw [h'.still hsecond, h.still hfirst]

end Moves

namespace Stands

variable {c : Cursor} {t lead word rest : Text} {kind : TokenKind}

theorem next (h : c.Stands t) (hs : Starts t kind lead word rest) :
    ∃ line place, c.next = ⟨kind, lead, word, line, place⟩ ∧ c.rest = rest := by
  obtain ⟨line, place, hlexed⟩ := h.lexed
  rw [hs.token] at hlexed
  obtain ⟨hnext, hrest⟩ := Prod.mk.inj hlexed
  exact ⟨_, _, hnext.symm, hrest.symm⟩

theorem unread (h : c.Stands t) (hs : Starts t kind lead word rest) : c.unread = t := by
  obtain ⟨line, place, hnext, hrest⟩ := h.next hs
  rw [Cursor.unread, hnext, hrest, hs.text, List.append_assoc]

theorem take (h : c.Stands t) (ht : Lexer.trivia .blank t = (lead, word ++ rest)) (hword : word ≠ [])
    (kind : TokenKind) (role : LeafRole) :
    c.Moves (c.take kind role word.length)
        [⟨⟨kind, lead, word, c.next.line, c.next.place⟩, role⟩]
      ∧ (c.take kind role word.length).Stands rest := by
  obtain ⟨line, place, hlexed⟩ := h.lexed
  rw [Lexer.token, ht] at hlexed
  obtain ⟨hnext, hrest⟩ := Prod.mk.inj hlexed
  have hsource : c.next.text ++ c.rest = word ++ rest := by
    rw [← hnext, ← hrest]
    exact List.take_append_drop _ _
  have htrivia : c.next.trivia = lead := by rw [← hnext, List.nil_append]
  obtain ⟨first, more, hcons⟩ : ∃ first more, word = first :: more := List.exists_cons_of_ne_nil hword
  have htake : c.take kind role word.length =
      ⟨⟨{ c.next with kind, text := word }, role⟩ :: c.read,
        (Lexer.token (c.next.line + lineCount word) (c.next.place + word.length) [] rest).1,
        (Lexer.token (c.next.line + lineCount word) (c.next.place + word.length) [] rest).2⟩ := by
    simp [Cursor.take, hsource]
  have hplace : c.next.place + word.length
      ≤ (Lexer.token (c.next.line + lineCount word) (c.next.place + word.length) [] rest).1.place :=
    Nat.le_add_right _ _
  have hlength : 0 < word.length := by simp [hcons]
  constructor
  · rw [htake, ← htrivia]
    refine ⟨rfl, by dsimp only; omega, fun leaf hleaf => ?_, fun leaf hleaf => ?_, fun h => by simp at h⟩
    · obtain rfl := List.mem_singleton.1 hleaf
      exact Nat.le_refl _
    · obtain rfl := Option.some.inj hleaf
      rfl
  · rw [htake]
    refine ⟨⟨_, _, rfl⟩, fun leaf hleaf => ?_⟩
    obtain rfl := Option.some.inj hleaf
    dsimp only
    omega

theorem ahead_succ (h : c.Stands t) (hs : Starts t kind lead word rest) (n : Nat) :
    ∃ c' : Cursor, c'.Stands rest ∧ c.ahead (n + 1) = c'.ahead n := by
  obtain ⟨line, place, hnext, -⟩ := h.next hs
  obtain ⟨-, hstands⟩ := h.take hs.trivia hs.lexes.ne_nil c.next.kind .plain
  refine ⟨_, hstands, ?_⟩
  rw [Cursor.ahead, hnext]

end Stands

end Cursor

/-! ## Leaves and pieces -/

/-- Leaves make these pieces of a type: each one its blanks and its text, apart from the three of a
two-part name. -/
inductive Cut : List Leaf → TypeSource → Prop
  | nil : Cut [] []
  | leaf {leaf : Leaf} {more : List Leaf} {pieces : TypeSource} (hrole : leaf.role ≠ .space)
      (hmore : Cut more pieces) :
      Cut (leaf :: more) (.plain leaf.token.trivia :: Parse.piecesFrom.piece leaf :: pieces)
  | qualified {space dot member : Leaf} {more : List Leaf} {pieces : TypeSource}
      (hrole : space.role = .space) (hmore : Cut more pieces) :
      Cut (space :: dot :: member :: more)
        (.plain space.token.trivia :: .qualified space.token.text member.token.text
          (space.token.text ++ dot.token.trivia ++ dot.token.text ++ member.token.trivia
            ++ member.token.text) :: pieces)

namespace Cut

theorem append {first second : List Leaf} {pieces more : TypeSource} (h : Cut first pieces)
    (h' : Cut second more) : Cut (first ++ second) (pieces ++ more) := by
  induction h with
  | nil => exact h'
  | leaf hrole _ ih => exact .leaf hrole ih
  | qualified hrole _ ih => exact .qualified hrole ih

theorem plain (kind : TokenKind) (lead word : Text) (line place : Nat) :
    Cut [⟨⟨kind, lead, word, line, place⟩, .plain⟩] [.plain lead, .plain word] :=
  .leaf (fun h => nomatch h) .nil

theorem single {leaves : List Leaf} {lead word : Text} (h : Cut leaves [.plain lead, .plain word]) :
    ∃ leaf, leaves = [leaf] ∧ leaf.token.trivia = lead ∧ leaf.token.text = word := by
  generalize hpieces : [TypePiece.plain lead, .plain word] = pieces at h
  cases h with
  | nil => simp at hpieces
  | @leaf leaf more rest hrole hmore =>
    simp only [List.cons.injEq, TypePiece.plain.injEq] at hpieces
    obtain ⟨rfl, hpiece, rfl⟩ := hpieces
    cases hmore
    refine ⟨leaf, rfl, rfl, ?_⟩
    rw [Parse.piecesFrom.piece] at hpiece
    split at hpiece
    · simp at hpiece
    · exact (TypePiece.plain.inj hpiece).symm
  | qualified => simp at hpieces

def piecesOf : List Leaf → TypeSource
  | [] => []
  | first :: more => Parse.piecesFrom first.token.trivia first more

theorem piecesFrom_cons {leaf : Leaf} (hrole : leaf.role ≠ .space) (trivia : Text) (more : List Leaf) :
    Parse.piecesFrom trivia leaf more
      = .plain trivia :: Parse.piecesFrom.piece leaf :: piecesOf more := by
  match more with
  | [] => rfl
  | [next] => rfl
  | next :: third :: others =>
    rw [Parse.piecesFrom.eq_def]
    exact if_neg hrole

theorem piecesFrom_space {space dot member : Leaf} (hrole : space.role = .space) (trivia : Text)
    (more : List Leaf) :
    Parse.piecesFrom trivia space (dot :: member :: more)
      = .plain trivia :: .qualified space.token.text member.token.text
          (space.token.text ++ dot.token.trivia ++ dot.token.text ++ member.token.trivia
            ++ member.token.text) :: piecesOf more := by
  rw [Parse.piecesFrom.eq_def]
  dsimp only
  rw [if_pos hrole]
  cases more <;> rfl

theorem piecesOf_eq {leaves : List Leaf} {pieces : TypeSource} (h : Cut leaves pieces) :
    piecesOf leaves = pieces := by
  induction h with
  | nil => rfl
  | leaf hrole _ ih => rw [piecesOf, piecesFrom_cons hrole, ih]
  | qualified hrole _ ih => rw [piecesOf, piecesFrom_space hrole, ih]

/-- The pieces of a type are those of its leaves, with other blanks in front. -/
theorem piecesFrom {first : Leaf} {more : List Leaf} {lead : Text} {pieces : TypeSource}
    (h : Cut (first :: more) (.plain lead :: pieces)) (trivia : Text) :
    Parse.piecesFrom trivia first more = .plain trivia :: pieces := by
  generalize hpieces : TypePiece.plain lead :: pieces = all at h
  cases h with
  | leaf hrole hmore =>
    obtain ⟨-, rfl⟩ := List.cons.inj hpieces
    rw [piecesFrom_cons hrole, hmore.piecesOf_eq]
  | qualified hrole hmore =>
    obtain ⟨-, rfl⟩ := List.cons.inj hpieces
    rw [piecesFrom_space hrole, hmore.piecesOf_eq]

end Cut

/-! ## Readers -/

theorem Parse.bind_ok {α β : Type} {p : Parse α} {f : α → Parse β} {c c' : Cursor} {a : α}
    (h : p c = .ok (a, c')) : (p >>= f) c = f a c' := by
  show (StateT.bind p f) c = _
  rw [StateT.bind, h]
  rfl

/-- Before the text `t` the reader gives a result and leaves the text `after`; the result and the
leaves between are as told. -/
def Reads {α : Type} (p : Parse α) (t after : Text) (Q : α → List Leaf → Prop) : Prop :=
  ∀ c : Cursor, c.Stands t → ∃ a c' leaves, p c = .ok (a, c') ∧ c'.Stands after ∧ c.Moves c' leaves
    ∧ leaves.flatMap Leaf.source ++ after = t ∧ Q a leaves

namespace Reads

open Parse

section Rules

variable {α β : Type} {t mid after lead word rest : Text} {kind : TokenKind}
variable {Q : α → List Leaf → Prop} {R : β → List Leaf → Prop}

theorem mono {p : Parse α} {Q' : α → List Leaf → Prop} (hp : Reads p t after Q)
    (h : ∀ a leaves, Q a leaves → Q' a leaves) : Reads p t after Q' := by
  intro c hc
  obtain ⟨a, c', leaves, hok, hstands, hmoves, htext, hQ⟩ := hp c hc
  exact ⟨a, c', leaves, hok, hstands, hmoves, htext, h a leaves hQ⟩

theorem pure {a : α} (h : Q a []) : Reads (Pure.pure a) t t Q := fun c hc =>
  ⟨a, c, [], rfl, hc, .refl c, List.nil_append t, h⟩

theorem bind {p : Parse α} {f : α → Parse β} (hp : Reads p t mid Q)
    (hf : ∀ a leaves, Q a leaves → Reads (f a) mid after fun b more => R b (leaves ++ more)) :
    Reads (p >>= f) t after R := by
  intro c hc
  obtain ⟨a, c', leaves, hok, hstands, hmoves, htext, hQ⟩ := hp c hc
  obtain ⟨b, c'', more, hok', hstands', hmoves', htext', hR⟩ := hf a leaves hQ c' hstands
  refine ⟨b, c'', leaves ++ more, ?_, hstands', hmoves.trans hmoves', ?_, hR⟩
  · rw [bind_ok hok, hok']
  · rw [List.flatMap_append, List.append_assoc, htext', htext]

theorem map {p : Parse α} {f : α → β} (hp : Reads p t after fun a leaves => R (f a) leaves) :
    Reads (f <$> p) t after R := by
  intro c hc
  obtain ⟨a, c', leaves, hok, hstands, hmoves, htext, hQ⟩ := hp c hc
  refine ⟨f a, c', leaves, ?_, hstands, hmoves, htext, hQ⟩
  show (StateT.map f p) c = _
  rw [StateT.map, hok]
  rfl

theorem discard {p : Parse α} (hp : Reads p t after Q) :
    Reads (discard p) t after fun _ leaves => ∃ a, Q a leaves :=
  map (hp.mono fun a _ hQ => ⟨a, hQ⟩)

/-- A reader that reads no leaf gives its result to what follows. -/
theorem bind_still {p : Parse α} {f : α → Parse β} {P : α → Prop}
    (hp : Reads p t t fun a leaves => leaves = [] ∧ P a) (hf : ∀ a, P a → Reads (f a) t after R) :
    Reads (p >>= f) t after R := by
  refine hp.bind fun a leaves h => ?_
  obtain ⟨rfl, hP⟩ := h
  exact hf a hP

/-! ### Tokens -/

theorem peek_bind {f : Token → Parse β} (hs : Starts t kind lead word rest)
    (hf : ∀ line place, Reads (f ⟨kind, lead, word, line, place⟩) t after R) :
    Reads (peek >>= f) t after R := by
  intro c hc
  obtain ⟨line, place, hnext, -⟩ := hc.next hs
  rw [bind_ok (rfl : Parse.peek c = .ok (c.next, c)), hnext]
  exact hf line place c hc

theorem get_bind {f : Cursor → Parse β} (hs : Starts t kind lead word rest)
    (hf : ∀ c : Cursor, c.rest = rest → (∃ line place, c.next = ⟨kind, lead, word, line, place⟩) →
      Reads (f c) t after R) : Reads (get >>= f) t after R := by
  intro c hc
  obtain ⟨line, place, hnext, hrest⟩ := hc.next hs
  exact hf c hrest ⟨line, place, hnext⟩ c hc

theorem advance (hs : Starts t kind lead word rest) (hkind : kind ≠ .endOfFile) (role : LeafRole) :
    Reads (advance role) t rest fun token leaves => ∃ line place,
      token = ⟨kind, lead, word, line, place⟩ ∧ leaves = [⟨token, role⟩] := by
  intro c hc
  obtain ⟨line, place, hnext, -⟩ := hc.next hs
  obtain ⟨hmoves, hstands⟩ := hc.take hs.trivia hs.lexes.ne_nil kind role
  rw [hnext] at hmoves
  have hok : Parse.advance role c
      = .ok (⟨kind, lead, word, line, place⟩, c.take kind role word.length) := by
    rw [Parse.advance, hnext]
    exact if_neg hkind
  exact ⟨_, _, _, hok, hstands, hmoves, by simp [Leaf.source, hs.text], line, place, rfl, rfl⟩

theorem skip (hs : Starts t kind lead word rest) (hkind : kind ≠ .endOfFile) :
    Reads skip t rest fun _ leaves => Cut leaves [.plain lead, .plain word] := by
  refine (discard (advance hs hkind .plain)).mono fun _ leaves h => ?_
  obtain ⟨_, line, place, rfl, rfl⟩ := h
  exact .plain kind lead word line place

theorem cut {c : Char} {more : Text} (hs : Starts t .mark lead (c :: more) rest) :
    Reads (cut c) t (more ++ rest) fun _ leaves => Cut leaves [.plain lead, .plain [c]] := by
  refine peek_bind hs fun line place => ?_
  rw [if_pos (by simp [startsMark])]
  intro cursor hc
  have htrivia : Lexer.trivia .blank t = (lead, [c] ++ (more ++ rest)) := hs.trivia
  obtain ⟨hmoves, hstands⟩ := hc.take htrivia (List.cons_ne_nil c []) .mark .plain
  exact ⟨(), _, _, rfl, hstands, hmoves, by simp [Leaf.source, hs.text], .plain _ _ _ _ _⟩

theorem expect {test : Token → Bool} (hs : Starts t kind lead word rest)
    (htest : ∀ line place, test ⟨kind, lead, word, line, place⟩ = true) (hkind : kind ≠ .endOfFile) :
    Reads (expect test) t rest fun token leaves =>
      (∃ line place, token = ⟨kind, lead, word, line, place⟩)
        ∧ Cut leaves [.plain lead, .plain word] := by
  refine peek_bind hs fun line place => ?_
  rw [if_pos (htest line place)]
  refine (advance hs hkind .plain).mono fun token leaves h => ?_
  obtain ⟨line, place, rfl, rfl⟩ := h
  exact ⟨⟨line, place, rfl⟩, .plain kind lead word line place⟩

theorem mark {m : String} (hs : Starts t .mark lead m.toList rest) :
    Reads (mark m) t rest fun _ leaves => Cut leaves [.plain lead, .plain m.toList] := by
  have htest : ∀ line place, isMark m ⟨.mark, lead, m.toList, line, place⟩ = true := by simp [isMark]
  exact (discard (expect hs htest (by decide))).mono fun _ _ h => h.choose_spec.2

theorem keyword {w : String} (hs : Starts t .word lead w.toList rest) :
    Reads (Parse.word w) t rest fun _ leaves => Cut leaves [.plain lead, .plain w.toList] := by
  have htest : ∀ line place, isKeyword w ⟨.word, lead, w.toList, line, place⟩ = true := by
    simp [isKeyword]
  exact (discard (expect hs htest (by decide))).mono fun _ _ h => h.choose_spec.2

theorem name (hs : Starts t .word lead word rest) :
    Reads name t rest fun _ leaves => Cut leaves [.plain lead, .plain word] :=
  (discard (expect hs (by simp) (by decide))).mono fun _ _ h => h.choose_spec.2

theorem declaredName (i : Printed.Identifier) (hlead : Blank lead) (hrest : EndsWord rest) :
    Reads declaredName (lead ++ (i.text ++ rest)) rest fun n _ => n = i.declared := by
  intro c hc
  have hs : Starts (lead ++ (i.text ++ rest)) .word lead i.text rest := .name i hlead hrest
  obtain ⟨line, place, hnext, hbehind⟩ := hc.next hs
  obtain ⟨hmoves, hstands⟩ := hc.take hs.trivia hs.lexes.ne_nil .word .plain
  have hname : Name.atStart (c.next.text ++ c.rest) = i.declared := by
    have htext : (i.text ++ rest).take (Lexer.wordLength 0 (i.text ++ rest)) = i.text := by
      rw [wordLength_word i.start (fun _ hd => (i.mem_chars hd).1) hrest, List.take_left]
    rw [hnext, hbehind]
    exact Name.eq_of_text htext
  have hok : Parse.declaredName c = .ok (i.declared, c.take .word .plain i.text.length) := by
    rw [Parse.declaredName, hname, hnext]
    rfl
  exact ⟨_, _, _, hok, hstands, hmoves, by simp [Leaf.source], rfl⟩

theorem accept_true {test : Token → Bool} (hs : Starts t kind lead word rest)
    (htest : ∀ line place, test ⟨kind, lead, word, line, place⟩ = true) (hkind : kind ≠ .endOfFile) :
    Reads (accept test) t rest fun b leaves => b = true ∧ Cut leaves [.plain lead, .plain word] := by
  refine peek_bind hs fun line place => ?_
  rw [if_pos (htest line place)]
  refine (skip hs hkind).bind fun _ leaves hcut => pure ⟨rfl, ?_⟩
  rwa [List.append_nil]

theorem accept_true_bind {test : Token → Bool} {f : Bool → Parse β} (hs : Starts t kind lead word rest)
    (htest : ∀ line place, test ⟨kind, lead, word, line, place⟩ = true) (hkind : kind ≠ .endOfFile)
    (hf : ∀ leaves, Cut leaves [.plain lead, .plain word] →
      Reads (f true) rest after fun b more => R b (leaves ++ more)) :
    Reads (accept test >>= f) t after R := by
  refine (accept_true hs htest hkind).bind fun b leaves h => ?_
  obtain ⟨rfl, hcut⟩ := h
  exact hf leaves hcut

theorem accept_false {test : Token → Bool} (h : Next test t false) :
    Reads (accept test) t t fun b leaves => leaves = [] ∧ b = false := by
  obtain ⟨kind, lead, word, rest, hs, htest⟩ := h
  refine peek_bind hs fun line place => ?_
  rw [htest line place]
  exact pure ⟨rfl, rfl⟩

theorem accept_false_bind {test : Token → Bool} {f : Bool → Parse β} (h : Next test t false)
    (hf : Reads (f false) t after R) : Reads (accept test >>= f) t after R := by
  refine (accept_false h).bind_still ?_
  rintro _ rfl
  exact hf

theorem acceptCut_false {c : Char} (h : Next (startsMark c) t false) :
    Reads (acceptCut c) t t fun b leaves => leaves = [] ∧ b = false := by
  obtain ⟨kind, lead, word, rest, hs, htest⟩ := h
  refine peek_bind hs fun line place => ?_
  rw [htest line place]
  exact pure ⟨rfl, rfl⟩

theorem acceptCut_false_bind {c : Char} {f : Bool → Parse β} (h : Next (startsMark c) t false)
    (hf : Reads (f false) t after R) : Reads (acceptCut c >>= f) t after R := by
  refine (acceptCut_false h).bind_still ?_
  rintro _ rfl
  exact hf

theorem ahead_bind {f : Token → Parse β} {kind' : TokenKind} {lead' word' rest' : Text}
    (hs : Starts t kind lead word rest) (hs' : Starts rest kind' lead' word' rest')
    (hf : ∀ line place, Reads (f ⟨kind', lead', word', line, place⟩) t after R) :
    Reads (ahead 1 >>= f) t after R := by
  intro c hc
  obtain ⟨c', hc', hahead⟩ := hc.ahead_succ hs 0
  obtain ⟨line, place, hnext, -⟩ := hc'.next hs'
  rw [bind_ok (rfl : Parse.ahead 1 c = .ok (c.ahead 1, c)), hahead, Cursor.ahead, hnext]
  exact hf line place c hc

/-- As `ahead_bind`, two tokens further on. -/
theorem ahead_three_bind {f : Token → Parse β} {kind₁ kind₂ kind₃ : TokenKind}
    {lead₁ lead₂ lead₃ word₁ word₂ word₃ rest₁ rest₂ rest₃ : Text}
    (hs : Starts t kind lead word rest) (hs₁ : Starts rest kind₁ lead₁ word₁ rest₁)
    (hs₂ : Starts rest₁ kind₂ lead₂ word₂ rest₂) (hs₃ : Starts rest₂ kind₃ lead₃ word₃ rest₃)
    (hf : ∀ line place, Reads (f ⟨kind₃, lead₃, word₃, line, place⟩) t after R) :
    Reads (ahead 3 >>= f) t after R := by
  intro c hc
  obtain ⟨c₁, hc₁, hahead₁⟩ := hc.ahead_succ hs 2
  obtain ⟨c₂, hc₂, hahead₂⟩ := hc₁.ahead_succ hs₁ 1
  obtain ⟨c₃, hc₃, hahead₃⟩ := hc₂.ahead_succ hs₂ 0
  obtain ⟨line, place, hnext, -⟩ := hc₃.next hs₃
  rw [bind_ok (rfl : Parse.ahead 3 c = .ok (c.ahead 3, c)), hahead₁, hahead₂, hahead₃, Cursor.ahead,
    hnext]
  exact hf line place c hc

theorem lineEnds_false {e : Ending} (hs : Starts t kind lead word rest) (hstay : e.leftOut t = false) :
    Reads (lineEnds e) t t fun b leaves => leaves = [] ∧ b = false := by
  intro c hc
  refine ⟨false, c, [], ?_, hc, .refl c, List.nil_append t, rfl, rfl⟩
  rw [Parse.lineEnds, hc.unread hs, hstay, Bool.and_false]

theorem lineEnds_bind {e : Ending} {f : Bool → Parse β} (hs : Starts t kind lead word rest)
    (hstay : e.leftOut t = false) (hf : Reads (f false) t after R) :
    Reads (lineEnds e >>= f) t after R := by
  refine (lineEnds_false hs hstay).bind_still ?_
  rintro _ rfl
  exact hf

/-- Asking for the end of a line reads nothing. -/
theorem lineEnds_still (e : Ending) : Reads (lineEnds e) t t fun _ leaves => leaves = [] ∧ True :=
  fun c hc => ⟨_, c, [], rfl, hc, .refl c, List.nil_append t, rfl, trivial⟩

theorem semicolon {e : Ending} (hs : Starts t .mark lead ";".toList rest)
    (hstay : e.leftOut t = false) :
    Reads (semicolon e) t rest fun _ leaves => Cut leaves [.plain lead, .plain ";".toList] :=
  lineEnds_bind hs hstay (mark hs)

/-! ### Choices and repetitions -/

theorem look {p : Parse α} (hp : Reads p t mid Q) :
    Reads (look p) t t fun a leaves => leaves = [] ∧ ∃ more, Q a more := by
  intro c hc
  obtain ⟨a, c', leaves, hok, -, -, -, hQ⟩ := hp c hc
  refine ⟨a, c, [], ?_, hc, .refl c, List.nil_append t, rfl, leaves, hQ⟩
  rw [Parse.look, hok]
  rfl

/-- What is told of a result alone is told of a look ahead for it. -/
theorem look_still {p : Parse α} {P : α → Prop} (hp : Reads p t mid fun a _ => P a) :
    Reads (Parse.look p) t t fun a leaves => leaves = [] ∧ P a :=
  (look hp).mono fun _ _ h => ⟨h.1, h.2.choose_spec⟩

theorem attempt {p : Parse α} (hp : Reads p t after Q) :
    Reads (attempt p) t after fun a leaves => ∃ b, a = some b ∧ Q b leaves := by
  intro c hc
  obtain ⟨a, c', leaves, hok, hstands, hmoves, htext, hQ⟩ :=
    (map (f := some) (R := fun a leaves => ∃ b, a = some b ∧ Q b leaves)
      (hp.mono fun a leaves hQ => ⟨a, rfl, hQ⟩)) c hc
  refine ⟨a, c', leaves, ?_, hstands, hmoves, htext, hQ⟩
  rw [Parse.attempt, orElse, hok]

theorem iterate_last {step : α → Parse (Option α)} {a : α} {bound : Nat} (hbound : 0 < bound)
    (hstep : Reads (step a) t after fun b leaves => b = none ∧ Q a leaves) :
    Reads (iterate step bound a) t after Q := by
  obtain ⟨bound, rfl⟩ := Nat.exists_eq_succ_of_ne_zero (Nat.pos_iff_ne_zero.1 hbound)
  rw [iterate]
  refine hstep.bind fun b leaves h => ?_
  obtain ⟨rfl, hQ⟩ := h
  exact pure (by rwa [List.append_nil])

theorem iterate_next {step : α → Parse (Option α)} {a : α} {bound : Nat} {Q' : α → List Leaf → Prop}
    (hstep : Reads (step a) t mid fun b leaves => ∃ next, b = some next ∧ Q' next leaves)
    (hmore : ∀ next leaves, Q' next leaves →
      Reads (iterate step bound next) mid after fun b more => Q b (leaves ++ more)) :
    Reads (iterate step (bound + 1) a) t after Q := by
  rw [iterate]
  refine hstep.bind fun b leaves h => ?_
  obtain ⟨next, rfl, hQ⟩ := h
  exact hmore next leaves hQ

/-! ### Sources -/

/-- The leaves read since a cursor are those between. -/
theorem leavesSince {c c' : Cursor} {leaves : List Leaf} (hc : c.Stands t) (hmoves : c.Moves c' leaves) :
    leavesSince c.next.place c' = .ok (leaves, c') := by
  have hrun : c'.read.takeWhile (fun leaf => decide (c.next.place ≤ leaf.token.place))
      = leaves.reverse := by
    have hstop : c.read.takeWhile (fun leaf => decide (c.next.place ≤ leaf.token.place)) = [] := by
      cases hread : c.read with
      | nil => rfl
      | cons leaf read =>
        have hlt := hc.behind leaf (by rw [hread]; rfl)
        exact List.takeWhile_cons_of_neg (by simpa using hlt)
    rw [hmoves.read, List.takeWhile_append_of_pos, hstop, List.append_nil]
    intro leaf hleaf
    simpa using hmoves.places leaf (List.mem_reverse.1 hleaf)
  rw [Parse.leavesSince, hrun, List.reverse_reverse]

theorem sourceOf_eq {leaves : List Leaf} {lead source : Text}
    (hlead : ∀ leaf, leaves.head? = some leaf → leaf.token.trivia = lead)
    (htext : leaves.flatMap Leaf.source ++ after = lead ++ (source ++ after)) :
    sourceOf leaves = source := by
  cases leaves with
  | nil =>
    have hlength := congrArg List.length htext
    simp only [List.flatMap_nil, List.nil_append, List.length_append] at hlength
    exact (List.length_eq_zero_iff.1 (by omega)).symm
  | cons first more =>
    rw [List.flatMap_cons, Leaf.source, hlead first rfl, List.append_assoc, List.append_assoc] at htext
    have hrest := List.append_cancel_left htext
    rw [← List.append_assoc] at hrest
    exact List.append_cancel_right hrest

theorem withSource {p : Parse α} {source : Text} (hp : Reads p t after Q)
    (hs : Starts t kind lead word rest) (ht : t = lead ++ (source ++ after)) :
    Reads (withSource p) t after fun a leaves => a.2 = source ∧ Q a.1 leaves := by
  intro c hc
  obtain ⟨line, place, hnext, -⟩ := hc.next hs
  obtain ⟨a, c', leaves, hok, hstands, hmoves, htext, hQ⟩ := hp c hc
  have hsource : sourceOf leaves = source :=
    sourceOf_eq (fun leaf hleaf => by rw [hmoves.lead leaf hleaf, hnext]) (htext.trans ht)
  refine ⟨(a, source), c', leaves, ?_, hstands, hmoves, htext, rfl, hQ⟩
  rw [Parse.withSource, bind_ok (rfl : Parse.peek c = .ok (c.next, c)), bind_ok hok,
    bind_ok (leavesSince hc hmoves), hsource]
  rfl

/-- The source of a type is that of its pieces, without the blanks before it. -/
theorem typeSource {p : Parse Unit} {pieces : TypeSource}
    (hp : Reads p t after fun _ leaves => Cut leaves (.plain lead :: pieces)) :
    Reads (typeSource p) t after fun source _ => source = .plain [] :: pieces := by
  intro c hc
  obtain ⟨a, c', leaves, hok, hstands, hmoves, htext, hcut⟩ := hp c hc
  refine ⟨_, c', leaves, ?_, hstands, hmoves, htext, rfl⟩
  rw [Parse.typeSource, bind_ok (rfl : Parse.peek c = .ok (c.next, c)), bind_ok hok,
    bind_ok (leavesSince hc hmoves)]
  cases leaves with
  | nil => nomatch hcut
  | cons first more =>
    rw [← hcut.piecesFrom []]
    rfl

end Rules

end Reads

end NestClient.TypeScript
