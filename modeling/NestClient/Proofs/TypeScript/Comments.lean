import NestClient.Client.Literal
import NestClient.Proofs.Text.Occurs
import NestClient.TypeScript.Token

/-! Where comments open and close in a text, as a reader of TypeScript goes through it character by
character: strings and template literals hold no comments, and the holes of a template literal are code.
Regular expressions are not told from divisions.

* `Quiet`: a text that can stand between two tokens without a comment in it.
* `Piece`: a part of a file, told to be code or a comment by those who write it.
* `readAsWritten_iff`: a file is read as it is written where every piece is.
* `Piece.reads_comment_iff`: a comment ends where it is meant to, unless its text closes it. -/

namespace NestClient.TypeScript

/-! ## Reading -/

/-- What the reader is in the middle of. -/
inductive Inside where
  | code
  /-- Behind a slash in code. -/
  | slash
  | lineComment
  | blockComment
  /-- Behind a star in a block comment. -/
  | star
  | string (quote : Char)
  /-- Behind a backslash in a string. -/
  | escape (quote : Char)
  /-- Behind an escaped carriage return: a line feed belongs to it. -/
  | lineEnd (quote : Char)
  | template
  /-- Behind a backslash in a template literal. -/
  | templateEscape
  /-- Behind a dollar sign in a template literal. -/
  | dollar
  deriving DecidableEq, Repr

/-- A place of the text. Each open hole of a template literal comes with the number of braces that are
open in it, the innermost hole first. -/
structure Reading where
  inside : Inside
  holes : List Nat
  deriving DecidableEq, Repr

/-- What a character does to comments. A comment is open from its second character on. -/
inductive Mark where
  | none
  | opens
  | closes
  deriving DecidableEq, Repr

namespace Reading

/-- In code, and in no hole of a literal. -/
def start : Reading := ⟨.code, []⟩

section Steps

variable (holes : List Nat) (c : Char)

def brace : List Nat → List Nat
  | [] => []
  | n :: outer => (n + 1) :: outer

def unbrace : List Nat → Reading
  | [] => start
  | 0 :: outer => ⟨.template, outer⟩
  | (n + 1) :: outer => ⟨.code, n :: outer⟩

def ofCode : Reading :=
  if c = '/' then ⟨.slash, holes⟩
  else if c = '\x27' || c = '"' then ⟨.string c, holes⟩
  else if c = '\x60' then ⟨.template, holes⟩
  else if c = '{' then ⟨.code, brace holes⟩
  else if c = '}' then unbrace holes
  else ⟨.code, holes⟩

def ofBlock : Reading := if c = '*' then ⟨.star, holes⟩ else ⟨.blockComment, holes⟩

/-- A string ends with its line at the latest. -/
def ofString (quote : Char) : Reading :=
  if c = quote || c = '\n' || c = '\r' then ⟨.code, holes⟩
  else if c = '\\' then ⟨.escape quote, holes⟩
  else ⟨.string quote, holes⟩

def ofTemplate : Reading :=
  if c = '\x60' then ⟨.code, holes⟩
  else if c = '\\' then ⟨.templateEscape, holes⟩
  else if c = '$' then ⟨.dollar, holes⟩
  else ⟨.template, holes⟩

end Steps

def step (s : Reading) (c : Char) : Reading :=
  match s.inside with
  | .code => ofCode s.holes c
  | .slash =>
    if c = '/' then ⟨.lineComment, s.holes⟩
    else if c = '*' then ⟨.blockComment, s.holes⟩
    else ofCode s.holes c
  | .lineComment => if endsLineComment c then ⟨.code, s.holes⟩ else s
  | .blockComment => ofBlock s.holes c
  | .star => if c = '/' then ⟨.code, s.holes⟩ else ofBlock s.holes c
  | .string quote => ofString s.holes c quote
  | .escape quote => if c = '\r' then ⟨.lineEnd quote, s.holes⟩ else ⟨.string quote, s.holes⟩
  | .lineEnd quote => if c = '\n' then ⟨.string quote, s.holes⟩ else ofString s.holes c quote
  | .template => ofTemplate s.holes c
  | .templateEscape => ⟨.template, s.holes⟩
  | .dollar => if c = '{' then ⟨.code, 0 :: s.holes⟩ else ofTemplate s.holes c

def mark (s : Reading) (c : Char) : Mark :=
  match s.inside with
  | .slash => if c = '/' || c = '*' then .opens else .none
  | .lineComment => if endsLineComment c then .closes else .none
  | .star => if c = '/' then .closes else .none
  | .code | .blockComment | .string _ | .escape _ | .lineEnd _ | .template | .templateEscape
  | .dollar => .none

def run (s : Reading) (t : Text) : Reading := t.foldl step s

def marks : Reading → Text → List Mark
  | _, [] => []
  | s, c :: rest => s.mark c :: marks (s.step c) rest

theorem run_append (s : Reading) (t u : Text) : s.run (t ++ u) = (s.run t).run u := List.foldl_append

theorem marks_append (s : Reading) (t u : Text) :
    s.marks (t ++ u) = s.marks t ++ (s.run t).marks u := by
  induction t generalizing s with
  | nil => rfl
  | cons c t ih => rw [List.cons_append, marks, marks, ih, List.cons_append, run, run, List.foldl_cons]

theorem length_marks (s : Reading) (t : Text) : (s.marks t).length = t.length := by
  induction t generalizing s with
  | nil => rfl
  | cons c t ih => rw [marks, List.length_cons, ih, List.length_cons]

end Reading

open Reading

/-! ## Texts without comments -/

/-- The text leads from one place to another and does nothing to comments. -/
structure Passes (s : Reading) (t : Text) (after : Reading) : Prop where
  run : s.run t = after
  marks : s.marks t = List.replicate t.length .none

/-- A text that is begun and left in code, with no comment in it. -/
def Quiet (t : Text) : Prop := Passes start t start

instance (s : Reading) (t : Text) (after : Reading) : Decidable (Passes s t after) :=
  decidable_of_iff (s.run t = after ∧ s.marks t = List.replicate t.length .none)
    ⟨fun h => ⟨h.1, h.2⟩, fun h => ⟨h.1, h.2⟩⟩

instance (t : Text) : Decidable (Quiet t) := inferInstanceAs (Decidable (Passes _ _ _))

variable {s between after : Reading} {t u : Text} {c : Char} {holes : List Nat} {quote : Char}

theorem Passes.nil (s : Reading) : Passes s [] s := ⟨rfl, rfl⟩

theorem passes_cons_iff : Passes s (c :: t) after ↔ s.mark c = .none ∧ Passes (s.step c) t after := by
  constructor
  · rintro ⟨hrun, hmarks⟩
    rw [marks, List.length_cons, List.replicate_succ, List.cons.injEq] at hmarks
    exact ⟨hmarks.1, hrun, hmarks.2⟩
  · rintro ⟨hmark, hrun, hmarks⟩
    exact ⟨hrun, by rw [marks, hmark, hmarks, List.length_cons, List.replicate_succ]⟩

theorem Passes.cons (hmark : s.mark c = .none) (h : Passes (s.step c) t after) :
    Passes s (c :: t) after :=
  passes_cons_iff.2 ⟨hmark, h⟩

theorem Passes.append (h : Passes s t between) (h' : Passes between u after) :
    Passes s (t ++ u) after where
  run := by rw [run_append, h.run, h'.run]
  marks := by rw [marks_append, h.marks, h.run, h'.marks, List.length_append, List.replicate_append_replicate]

theorem passes_append_iff (h : Passes s t between) : Passes s (t ++ u) after ↔ Passes between u after := by
  refine ⟨fun hall => ?_, h.append⟩
  have hmarks := hall.marks
  rw [marks_append, h.run, h.marks, List.length_append, ← List.replicate_append_replicate] at hmarks
  refine ⟨?_, List.append_cancel_left hmarks⟩
  rw [← h.run, ← run_append, hall.run]

/-- Where a literal or a comment can begin. -/
def beginsLiteral (c : Char) : Bool := ['/', '\x27', '"', '\x60'].contains c

theorem ofCode_of_not_beginsLiteral (hc : beginsLiteral c = false) (hopen : c ≠ '{') (hclose : c ≠ '}') :
    ofCode holes c = ⟨.code, holes⟩ := by
  have hne : c ≠ '/' ∧ c ≠ '\x27' ∧ c ≠ '"' ∧ c ≠ '\x60' := by simpa [beginsLiteral] using hc
  obtain ⟨hslash, hsingle, hdouble, hback⟩ := hne
  simp [ofCode, hslash, hsingle, hdouble, hback, hopen, hclose]

/-- Braces are told from the end of a hole by their number, so that a text for a hole has none. -/
theorem passes_code (h : ∀ c ∈ t, beginsLiteral c = false ∧ c ≠ '{' ∧ c ≠ '}') :
    Passes ⟨.code, holes⟩ t ⟨.code, holes⟩ := by
  induction t with
  | nil => exact Passes.nil _
  | cons c t ih =>
    obtain ⟨⟨hc, hopen, hclose⟩, hrest⟩ := List.forall_mem_cons.1 h
    refine Passes.cons rfl ?_
    have hstep : step ⟨.code, holes⟩ c = ⟨.code, holes⟩ := ofCode_of_not_beginsLiteral hc hopen hclose
    rw [hstep]
    exact ih hrest

theorem quiet_of_not_beginsLiteral (h : ∀ c ∈ t, beginsLiteral c = false) : Quiet t := by
  induction t with
  | nil => exact Passes.nil _
  | cons c t ih =>
    obtain ⟨hc, hrest⟩ := List.forall_mem_cons.1 h
    refine Passes.cons rfl ?_
    have hstep : start.step c = start := by
      by_cases hopen : c = '{'
      · rw [hopen]
        rfl
      · by_cases hclose : c = '}'
        · rw [hclose]
          rfl
        · exact ofCode_of_not_beginsLiteral hc hopen hclose
    rw [hstep]
    exact ih hrest

/-! ## Literals -/

theorem passes_escapeQuoted (hline : c ≠ '\n' ∧ c ≠ '\r') :
    Passes ⟨.string '\x27', holes⟩ (Client.escapeQuoted c) ⟨.string '\x27', holes⟩ := by
  unfold Client.escapeQuoted
  split
  next =>
    have hstep : step ⟨.escape '\x27', holes⟩ c = ⟨.string '\x27', holes⟩ := if_neg hline.2
    exact Passes.cons rfl (Passes.cons rfl (hstep.symm ▸ Passes.nil _))
  next hescaped =>
    have hne : c ≠ '\\' ∧ c ≠ '\x27' := by simpa using hescaped
    refine Passes.cons rfl ?_
    have hstep : step ⟨.string '\x27', holes⟩ c = ⟨.string '\x27', holes⟩ := by
      simp [step, ofString, hne.1, hne.2, hline.1, hline.2]
    rw [hstep]
    exact Passes.nil _

theorem quiet_stringLiteral (h : ∀ c ∈ t, c ≠ '\n' ∧ c ≠ '\r') : Quiet (Client.stringLiteral t) := by
  have hinner : Passes ⟨.string '\x27', []⟩ (t.flatMap Client.escapeQuoted) ⟨.string '\x27', []⟩ := by
    induction t with
    | nil => exact Passes.nil _
    | cons c t ih =>
      obtain ⟨hc, hrest⟩ := List.forall_mem_cons.1 h
      rw [List.flatMap_cons]
      exact (passes_escapeQuoted hc).append (ih hrest)
  have hclose : Passes ⟨.string '\x27', []⟩ ['\x27'] start := by decide
  exact Passes.cons rfl (hinner.append hclose)

/-! ## Comments -/

def Closes (t : Text) : Prop := "*/".toList <:+: t

instance (t : Text) : Decidable (Closes t) := decidable_of_iff _ (@Text.occurs_iff_infix "*/".toList t)

theorem star_mem_of_closes (h : Closes t) : '*' ∈ t := h.subset List.mem_cons_self

theorem closes_cons_of_ne (hc : c ≠ '*') : Closes (c :: t) ↔ Closes t := by
  unfold Closes
  rw [List.infix_cons_iff, or_iff_right]
  exact fun h => hc (List.cons_prefix_cons.1 h).1.symm

theorem closes_star_cons_of_ne (hc : c ≠ '/') : Closes ('*' :: c :: t) ↔ Closes (c :: t) := by
  unfold Closes
  rw [List.infix_cons_iff, or_iff_right]
  exact fun h => hc (List.cons_prefix_cons.1 (List.cons_prefix_cons.1 h).2).1.symm

/-- Behind a text that does not end with a star no comment is closed by the two texts together. -/
theorem closes_append_of_getLast? (h : t.getLast? ≠ some '*') : Closes (t ++ u) ↔ Closes t ∨ Closes u := by
  refine Text.infix_append fun d hd hmem => h ?_
  obtain rfl : d = '*' := List.mem_singleton.1 hmem
  exact hd

/-- Nor is one where the second text begins with neither of the two marks. -/
theorem closes_append_of_head? (hu : u.head? = some c) (hc : c ∉ "*/".toList) :
    Closes (t ++ u) ↔ Closes t ∨ Closes u := by
  obtain ⟨u', rfl⟩ := List.head?_eq_some_iff.1 hu
  have hstar : c ≠ '*' := by
    rintro rfl
    exact hc List.mem_cons_self
  rw [closes_cons_of_ne hstar]
  exact Text.infix_append_cons hc

/-- A block comment is still open behind the text and a star, unless the text closes it. -/
theorem passes_blockComment_iff :
    Passes ⟨.blockComment, holes⟩ (t ++ ['*']) ⟨.star, holes⟩ ↔ ¬Closes t := by
  -- what the reader of the rest has to know of the text before it is whether a star stands there
  have hboth : (Passes ⟨.blockComment, holes⟩ (t ++ ['*']) ⟨.star, holes⟩ ↔ ¬Closes t) ∧
      (Passes ⟨.star, holes⟩ (t ++ ['*']) ⟨.star, holes⟩ ↔ ¬Closes ('*' :: t)) := by
    induction t with
    | nil => exact ⟨iff_of_true ⟨rfl, rfl⟩ (by decide), iff_of_true ⟨rfl, rfl⟩ (by decide)⟩
    | cons c t ih =>
      obtain ⟨ihblock, ihstar⟩ := ih
      have hblock : Passes (ofBlock holes c) (t ++ ['*']) ⟨.star, holes⟩ ↔ ¬Closes (c :: t) := by
        unfold ofBlock
        split
        next hstar => rw [ihstar, hstar]
        next hstar => rw [ihblock, closes_cons_of_ne hstar]
      rw [List.cons_append, passes_cons_iff, passes_cons_iff]
      refine ⟨(and_iff_right rfl).trans hblock, ?_⟩
      by_cases hslash : c = '/'
      · rw [hslash]
        refine iff_of_false (fun h => nomatch h.1) (Classical.not_not.2 ?_)
        exact (List.prefix_append "*/".toList t).isInfix
      · have hmark : mark ⟨.star, holes⟩ c = .none := if_neg hslash
        have hstep : step ⟨.star, holes⟩ c = ofBlock holes c := if_neg hslash
        rw [and_iff_right hmark, hstep, hblock, closes_star_cons_of_ne hslash]
  exact hboth.1

/-! ## Texts as they are written -/

/-- A part of a file, as those who write the file mean it. -/
inductive Piece where
  | code (t : Text)
  /-- A text from somewhere else that is put into the code. -/
  | inserted (t : Text)
  /-- A block comment, without the marks that open and close it. -/
  | comment (inner : Text)
  deriving DecidableEq, Repr

namespace Piece

def text : Piece → Text
  | code t | inserted t => t
  | comment inner => "/*".toList ++ inner ++ "*/".toList

/-- Only the mark that opens a comment and the one that closes it are meant to do so. -/
def marks : Piece → List Mark
  | code t | inserted t => List.replicate t.length .none
  | comment inner => [.none, .opens] ++ List.replicate inner.length .none ++ [.none, .closes]

/-- Begun in code, the piece is read as it is meant, and leads to code again. -/
structure Reads (p : Piece) : Prop where
  marks : start.marks p.text = p.marks
  run : start.run p.text = start

def texts (pieces : List Piece) : Text := pieces.flatMap text

end Piece

open Piece (texts)

/-- Nothing but the comments that are meant to be there opens or closes a comment anywhere in the file,
and between two pieces the reader is always in code. -/
structure ReadAsWritten (pieces : List Piece) : Prop where
  marks : start.marks (texts pieces) = pieces.flatMap Piece.marks
  code : ∀ before after, pieces = before ++ after → start.run (texts before) = start

variable {p : Piece} {pieces : List Piece}

theorem Piece.length_marks (p : Piece) : p.marks.length = p.text.length := by
  cases p <;> simp [Piece.marks, Piece.text]

theorem readAsWritten_cons : ReadAsWritten (p :: pieces) ↔ p.Reads ∧ ReadAsWritten pieces := by
  have hmarks : start.marks (texts (p :: pieces))
      = start.marks p.text ++ (start.run p.text).marks (texts pieces) := marks_append _ _ _
  have hrun (before : List Piece) : start.run (texts (p :: before))
      = (start.run p.text).run (texts before) := run_append _ _ _
  constructor
  · rintro ⟨hall, hcode⟩
    have hp : start.run p.text = start := by
      have h := hcode [p] pieces rfl
      rwa [hrun] at h
    rw [hmarks, hp, List.flatMap_cons] at hall
    obtain ⟨hfirst, hrest⟩ := List.append_inj hall (by rw [Reading.length_marks, p.length_marks])
    refine ⟨⟨hfirst, hp⟩, hrest, fun before after h => ?_⟩
    have hmore := hcode (p :: before) after (by rw [h]; rfl)
    rwa [hrun, hp] at hmore
  · rintro ⟨hp, hall, hcode⟩
    refine ⟨by rw [hmarks, hp.run, hp.marks, hall, List.flatMap_cons], fun before after h => ?_⟩
    cases before with
    | nil => rfl
    | cons first before =>
      obtain ⟨rfl, hrest⟩ := List.cons.inj h
      rw [hrun, hp.run, hcode before after hrest]

theorem readAsWritten_iff : ReadAsWritten pieces ↔ ∀ p ∈ pieces, p.Reads := by
  induction pieces with
  | nil =>
    refine iff_of_true ⟨rfl, fun before after h => ?_⟩ (by simp)
    rw [(List.nil_eq_append_iff.1 h).1]
    rfl
  | cons p pieces ih => rw [readAsWritten_cons, ih, List.forall_mem_cons]

theorem readAsWritten_nil : ReadAsWritten [] := readAsWritten_iff.2 (by simp)

theorem readAsWritten_append {more : List Piece} :
    ReadAsWritten (pieces ++ more) ↔ ReadAsWritten pieces ∧ ReadAsWritten more := by
  simp only [readAsWritten_iff, List.forall_mem_append]

theorem readAsWritten_flatMap {α : Type} {items : List α} {f : α → List Piece} :
    ReadAsWritten (items.flatMap f) ↔ ∀ a ∈ items, ReadAsWritten (f a) := by
  simp only [readAsWritten_iff, List.mem_flatMap]
  exact ⟨fun h a ha p hp => h p ⟨a, ha, hp⟩, fun h p ⟨a, ha, hp⟩ => h a ha p hp⟩

theorem Piece.reads_code_iff : (Piece.code t).Reads ↔ Quiet t :=
  ⟨fun h => ⟨h.run, h.marks⟩, fun h => ⟨h.marks, h.run⟩⟩

theorem Piece.reads_inserted_iff : (Piece.inserted t).Reads ↔ Quiet t :=
  ⟨fun h => ⟨h.run, h.marks⟩, fun h => ⟨h.marks, h.run⟩⟩

theorem eq_star_of_mark_slash (hmark : s.mark '/' = .closes) (hstep : s.step '/' = start) :
    s = ⟨.star, []⟩ := by
  obtain ⟨inside, holes⟩ := s
  cases inside with
  | star =>
    obtain rfl : holes = [] := congrArg Reading.holes hstep
    rfl
  | _ => cases hmark

theorem Piece.reads_comment_iff : (Piece.comment t).Reads ↔ ¬Closes t := by
  have htext : (Piece.comment t).text = "/*".toList ++ ((t ++ ['*']) ++ ['/']) := by
    simp [Piece.text]
  have hmarks : start.marks (Piece.comment t).text = [.none, .opens]
      ++ (Reading.marks ⟨.blockComment, []⟩ (t ++ ['*'])
        ++ [(run ⟨.blockComment, []⟩ (t ++ ['*'])).mark '/']) := by
    rw [htext, marks_append, marks_append]
    rfl
  have hrun : start.run (Piece.comment t).text
      = (run ⟨.blockComment, []⟩ (t ++ ['*'])).step '/' := by
    rw [htext, run_append, run_append]
    rfl
  have hmeant : (Piece.comment t).marks = [.none, .opens]
      ++ (List.replicate (t ++ ['*']).length .none ++ [.closes]) := by
    simp [Piece.marks, List.replicate_succ']
  rw [← @passes_blockComment_iff t []]
  constructor
  · rintro ⟨hread, hend⟩
    rw [hmarks, hmeant] at hread
    obtain ⟨hinner, hlast⟩ := List.append_inj' (List.append_cancel_left hread) rfl
    exact ⟨eq_star_of_mark_slash (List.singleton_inj.1 hlast) (hrun ▸ hend), hinner⟩
  · intro h
    refine ⟨?_, by rw [hrun, h.run]; rfl⟩
    rw [hmarks, hmeant, h.run, h.marks]
    rfl

end NestClient.TypeScript
