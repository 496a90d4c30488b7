import NestClient.Proofs.TypeScript.ReadStatements
import NestClient.Source

/-! A written file is read back to what it declares. Its statements are read one by one, each from the
blanks before it up to the end of its last line; only the lines they stand on are not those of the
declarations, which have none. -/

namespace NestClient

namespace TypeScript

open Printed Parse

/-! ## Statements in a row -/

/-- A text at the start of which a statement is due, and no line that calls an interpreter. -/
def StartsStatement (t : Text) : Prop :=
  ∃ kind lead word rest, Starts t kind lead word rest ∧ kind ≠ .endOfFile ∧ word.head? ≠ some '#'

/-- The text is read as the statement, up to the end of its last line. -/
structure ReadsStatement (read : Parse Statement) (text : Text) (s : Statement) : Prop where
  starts : ∀ lead rest, Blank lead → StartsStatement (lead ++ (text ++ rest))
  reads : ∀ lead rest, Blank lead →
    Reads read (lead ++ (text ++ rest)) ('\n' :: rest) fun s' _ => s'.anywhere = s

theorem kind_next_of_blank {c : Cursor} {t : Text} (hc : c.Stands t) (ht : Blank t) :
    c.next.kind = .endOfFile := by
  obtain ⟨line, place, hlexed⟩ := hc.lexed
  have htrivia : Lexer.trivia .blank t = (t, []) := by
    have happend := trivia_append (t := []) ht fun c hc => by simp at hc
    rwa [List.append_nil] at happend
  rw [Lexer.token, htrivia] at hlexed
  have hnext : _ = c.next := congrArg Prod.fst hlexed
  rw [← hnext]
  rfl

theorem statementsFrom_items {read : Parse Statement} {items : List (Text × Statement)}
    (hitems : ∀ item ∈ items, ReadsStatement read item.1 item.2) {lead : Text} (hlead : Blank lead)
    {bound : Nat} (hbound : items.length < bound) {c : Cursor}
    (hc : c.Stands (lead ++ items.flatMap Prod.fst)) :
    ∃ ss, statementsFrom read bound c = .ok ss ∧ ss.map Statement.anywhere = items.map Prod.snd := by
  obtain ⟨bound, rfl⟩ := Nat.exists_eq_succ_of_ne_zero (Nat.ne_zero_of_lt hbound)
  induction items generalizing lead bound c with
  | nil =>
    rw [List.flatMap_nil, List.append_nil] at hc
    refine ⟨[], ?_, rfl⟩
    rw [statementsFrom, if_pos (kind_next_of_blank hc hlead)]
  | cons item items ih =>
    obtain ⟨hstarts, hreads⟩ := hitems item List.mem_cons_self
    rw [List.flatMap_cons] at hc
    obtain ⟨kind, lead', word, rest, hs, hkind, -⟩ := hstarts lead _ hlead
    obtain ⟨line, place, hnext, -⟩ := hc.next hs
    obtain ⟨s, c', -, hok, hc', -, -, hs⟩ := hreads lead _ hlead c hc
    have hmore : bound ≠ 0 := by
      rintro rfl
      simp at hbound
    obtain ⟨bound, rfl⟩ := Nat.exists_eq_succ_of_ne_zero hmore
    obtain ⟨ss, hrest, hss⟩ := ih (fun item hitem => hitems item (List.mem_cons_of_mem _ hitem)) blank_line
      hc' bound (by simpa using hbound)
    have hgo : c.next.kind ≠ .endOfFile := by
      rw [hnext]
      exact hkind
    refine ⟨s :: ss, ?_, by rw [List.map_cons, List.map_cons, hs, hss]⟩
    rw [statementsFrom, if_neg hgo, hok]
    dsimp only
    rw [hrest]
    rfl

/-! ## Files -/

def Printed.File.items (f : Printed.File) : List (Text × Statement) :=
  f.imports.map (fun i => (i.text, .importing i.node))
    ++ f.constants.map (fun c => (c.text, c.statement)) ++ f.classes.map fun c => (c.text, c.statement)

theorem Printed.File.text_items (f : Printed.File) : f.items.flatMap Prod.fst = f.text := by
  simp [Printed.File.items, Printed.File.text, List.flatMap_map]

theorem Printed.File.statements_items (f : Printed.File) : f.items.map Prod.snd = f.statements := by
  simp [Printed.File.items, Printed.File.statements, Function.comp_def]

theorem readsStatement_import {r : Rules} (i : Printed.Import) (hbound : i.taken.named.length < r.bound) :
    ReadsStatement r.statementRule i.text (.importing i.node) where
  starts lead rest hlead := ⟨_, _, _, _, Reads.starts_import i hlead rest, by decide, by decide⟩
  reads lead rest hlead := (Reads.statement_import i hbound hlead rest).mono fun s _ h => by
    rw [h, Statement.anywhere]

theorem readsStatement_constant {r : Rules} {n : Nat} (hr : Ready r n) (c : Printed.Constant) :
    ReadsStatement r.statementRule c.text c.statement where
  starts lead rest hlead := ⟨_, _, _, _, Reads.starts_constant c hlead rest, by decide, by decide⟩
  reads lead rest hlead := (Reads.statement_constant hr c hlead rest).mono fun s _ h => by
    rw [h, Constant.statement, Statement.anywhere]

theorem readsStatement_class {r : Rules} {n : Nat} (hr : Ready r n) (c : Printed.Class)
    (hlength : c.text.length ≤ n) : ReadsStatement r.statementRule c.text c.statement where
  starts lead rest hlead := by
    obtain ⟨kind, first, more, hs, -, hkind⟩ := Reads.starts_exportedClass c hlead rest
    obtain ⟨-, rfl, rfl⟩ | ⟨rfl, rfl⟩ := hkind
    · exact ⟨_, _, _, _, hs, by decide, by decide⟩
    · exact ⟨_, _, _, _, hs, by decide, by decide⟩
  reads lead rest hlead := Reads.statement_class hr c hlength hlead rest

theorem interpreterLine_eq_nil {t : Text} (h : StartsStatement t) : Lexer.interpreterLine t = [] := by
  obtain ⟨kind, lead, word, rest, hs, -, hhead⟩ := h
  have hnone : "#!".toList.isPrefixOf (word ++ rest) = false := by
    obtain ⟨c, more, rfl⟩ := List.exists_cons_of_ne_nil hs.lexes.ne_nil
    have hc : ('#' == c) = false := by simpa using Ne.symm (by simpa using hhead)
    show ('#' == c && _) = false
    rw [hc, Bool.false_and]
  rw [Lexer.interpreterLine, hs.trivia]
  dsimp only
  rw [hnone, if_neg Bool.false_ne_true]

theorem length_named (i : Printed.Import) : i.taken.named.length ≤ i.text.length := by
  obtain ⟨v, own, taken⟩ := i
  cases taken with
  | nothing => exact Nat.zero_le _
  | all space => exact Nat.zero_le _
  | names ns =>
    have hcount := (lengths_listed (ns.map nameText)).1
    have hnames := congrArg List.length (Reads.text_names ns [])
    have hwhole := congrArg List.length (Reads.import_text ⟨v, own, .names ns⟩ [])
    have htaken : (Taken.names ns).text.length ≤ (Reads.takenText own (.names ns)).length := by
      cases own with
      | none => exact Nat.le_refl _
      | some own =>
        show _ ≤ (own.text ++ ',' :: ' ' :: (Taken.names ns).text).length
        simp only [List.length_append, List.length_cons]
        omega
    rw [Reads.clause_eq v own (.names ns) fun _ => nofun] at hwhole
    simp only [List.append_nil, List.length_append, List.length_cons, List.length_map] at hcount hnames hwhole
    show ns.length ≤ _
    omega

theorem lengths_file (f : Printed.File) : f.items.length ≤ f.text.length
    ∧ ∀ item ∈ f.items, item.1.length ≤ f.text.length := by
  have hpos : ∀ item ∈ f.items, 0 < item.1.length := by
    intro item hitem
    simp only [Printed.File.items, List.mem_append, List.mem_map] at hitem
    obtain (⟨i, -, rfl⟩ | ⟨c, -, rfl⟩) | ⟨c, -, rfl⟩ := hitem
    · exact Nat.zero_lt_succ _
    · exact Nat.zero_lt_succ _
    · exact Nat.zero_lt_succ _
  have hlengths := lengths_flatMap (f := Prod.fst) hpos
  rwa [f.text_items] at hlengths

/-- The statements of a file are read where the rules read what is no longer than the file. -/
theorem readsStatement_items {r : Rules} {f : Printed.File} (hr : Ready r f.text.length) :
    ∀ item ∈ f.items, ReadsStatement r.statementRule item.1 item.2 := by
  intro item hitem
  have hlength := (lengths_file f).2 item hitem
  simp only [Printed.File.items, List.mem_append, List.mem_map] at hitem
  obtain (⟨i, -, rfl⟩ | ⟨c, -, rfl⟩) | ⟨c, -, rfl⟩ := hitem
  · exact readsStatement_import i (Nat.lt_of_le_of_lt (Nat.le_trans (length_named i) hlength) hr.bound)
  · exact readsStatement_constant hr c
  · exact readsStatement_class hr c hlength

theorem stands_start {t : Text} (h : Lexer.interpreterLine t = []) : (Cursor.start t).Stands t := by
  have hlexed : Lexer.token 1 0 [] t = ((Cursor.start t).next, (Cursor.start t).rest) := by
    rw [Cursor.start, h]
    rfl
  exact ⟨⟨1, 0, hlexed⟩, fun _ h => nomatch h⟩

theorem interpreterLine_items {read : Parse Statement} {items : List (Text × Statement)}
    (hitems : ∀ item ∈ items, ReadsStatement read item.1 item.2) :
    Lexer.interpreterLine (items.flatMap Prod.fst) = [] := by
  cases items with
  | nil => rfl
  | cons item items =>
    exact interpreterLine_eq_nil ((hitems item List.mem_cons_self).starts [] _ blank_nil)

/-- A written file has the statements that are written, whichever lines they stand on. -/
theorem parse_printed (f : Printed.File) :
    ∃ ss, parse f.text = .ok ss ∧ ss.map Statement.anywhere = f.statements := by
  have hr : Ready ⟨4 * f.text.length + 16, readGoal (4 * f.text.length + 16) (4 * f.text.length + 15)⟩
      f.text.length := ready (by omega) (by omega)
  have hitems := readsStatement_items hr
  have hstart := interpreterLine_items hitems
  rw [f.text_items] at hstart
  have hc := stands_start hstart
  rw [← f.text_items] at hc
  obtain ⟨ss, hread, hss⟩ := statementsFrom_items hitems blank_nil
    (Nat.lt_of_le_of_lt (lengths_file f).1 hr.bound) hc
  rw [f.statements_items] at hss
  rw [f.text_items] at hread
  exact ⟨ss, hread, hss⟩

end TypeScript

/-- Reading inverts writing: the model of a written file has the imports, the constants and the classes
that are written, in their order. Each type comes as written and with the names that imports bind
referring to their modules. -/
theorem SourceFile.ofText_printed (name : Text) (f : TypeScript.Printed.File)
    (hlocals : (f.imports.flatMap TypeScript.Printed.Import.locals).Nodup) :
    ∃ s, SourceFile.ofText name f.text = .ok s ∧ s.path = name
      ∧ s.imports = f.imports.map TypeScript.Printed.Import.decl
      ∧ s.constants = f.constants.map TypeScript.Printed.Constant.decl
      ∧ s.classes.map ClassDecl.anywhere = f.classes.map (TypeScript.Printed.Class.decl f.imports) := by
  obtain ⟨ss, hparse, hss⟩ := TypeScript.parse_printed f
  refine ⟨TypeScript.readFile name ss, ?_, rfl, TypeScript.readFile_printed hlocals hss⟩
  rw [SourceFile.ofText, hparse]

namespace TypeScript.Printed

/-- No word of the language begins with a capital letter. -/
theorem free_of_isUpper {text : Text} (h : text.head?.any Char.isUpper = true) :
    text ∉ languageWords.map String.toList := by
  have hwords : (languageWords.all fun w => !w.toList.head?.any Char.isUpper) = true := by
    simp [languageWords, reservedWords, contextualWords, typeWords]
  rintro hword
  obtain ⟨w, hw, rfl⟩ := List.mem_map.1 hword
  have hlower := List.all_eq_true.1 hwords w hw
  rw [h] at hlower
  exact absurd hlower (by decide)

/-- A page of items, as a class that lists them. -/
def samplePage : File :=
  let item : Identifier := ⟨"Item".toList, by decide, by decide, free_of_isUpper (by decide)⟩
  let row : Identifier := ⟨"Row".toList, by decide, by decide, free_of_isUpper (by decide)⟩
  let shared : Identifier := ⟨"Shared".toList, by decide, by decide, free_of_isUpper (by decide)⟩
  let page : Identifier := ⟨"Page".toList, by decide, by decide, free_of_isUpper (by decide)⟩
  let find : Identifier := ⟨"Find".toList, by decide, by decide, free_of_isUpper (by decide)⟩
  { imports := [
      ⟨⟨"@app/types".toList, by decide⟩, none, .names [(row, some item)]⟩,
      ⟨⟨"./shared".toList, by decide⟩, none, .all shared⟩]
    constants := [⟨page, ⟨"pages".toList, by decide⟩⟩]
    classes := [{
      decorators := [⟨page, some [⟨"items".toList, by decide⟩]⟩]
      name := page
      methods := [{
        decorators := [⟨find, none⟩]
        name := find
        parameters := [⟨[⟨row, some []⟩], item, true, some (.mk none item [] 1)⟩]
        returnType := some (.mk (some shared) page [.mk none item [] 0] 0) }] }] }

end TypeScript.Printed

theorem SourceFile.ofText_samplePage :
    (TypeScript.Printed.samplePage.imports.flatMap TypeScript.Printed.Import.locals).Nodup
      ∧ ∃ s, SourceFile.ofText "page.ts".toList TypeScript.Printed.samplePage.text = .ok s
        ∧ s.path = "page.ts".toList
        ∧ s.imports = TypeScript.Printed.samplePage.imports.map TypeScript.Printed.Import.decl
        ∧ s.constants = TypeScript.Printed.samplePage.constants.map TypeScript.Printed.Constant.decl
        ∧ s.classes.map ClassDecl.anywhere = TypeScript.Printed.samplePage.classes.map
            (TypeScript.Printed.Class.decl TypeScript.Printed.samplePage.imports) :=
  have hlocals : (TypeScript.Printed.samplePage.imports.flatMap TypeScript.Printed.Import.locals).Nodup := by
    decide
  ⟨hlocals, SourceFile.ofText_printed _ _ hlocals⟩

end NestClient
