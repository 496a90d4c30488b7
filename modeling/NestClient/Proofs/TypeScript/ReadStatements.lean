import NestClient.Proofs.TypeScript.ReadClasses
import NestClient.Proofs.TypeScript.ReadImports

/-! Written constants and classes are read to statements. -/

namespace NestClient.TypeScript

open Printed

namespace Reads

open Parse Rules

variable {r : Rules} {n : Nat} {t lead after rest : Text}

/-! ## Constants -/

/-- The value of a constant, behind its name. -/
def valueText (v : StringValue) (rest : Text) : Text := " = ".toList ++ (v.quoted ++ ';' :: rest)

theorem starts_equals (v : StringValue) (rest : Text) :
    Starts (valueText v rest) .mark " ".toList ['='] (" ".toList ++ (v.quoted ++ ';' :: rest)) :=
  .before blank_space (by decide) (by decide) _

theorem endsWord_equals (v : StringValue) (rest : Text) : EndsWord (valueText v rest) :=
  endsWord_cons _ (by decide)

theorem declarator (hr : Ready r n) (i : Identifier) (v : StringValue) (hlead : Blank lead) (rest : Text) :
    Reads r.declarator (lead ++ (i.text ++ valueText v rest)) (';' :: rest) fun a _ =>
      a = (i.text, some (.string v.quoted)) := by
  have hname : Starts (lead ++ (i.text ++ valueText v rest)) .word lead i.text (valueText v rest) :=
    .name i hlead (endsWord_equals v rest)
  have hequals := starts_equals v rest
  have hbinding : Reads r.binding (lead ++ (i.text ++ valueText v rest)) (valueText v rest)
      fun _ _ => True := by
    unfold Rules.binding
    refine (destructuring?_word hname).bind_still ?_
    rintro _ rfl
    exact (name hname).mono fun _ _ _ => trivial
  have hvalue : Reads (r.initializer true) (valueText v rest) (';' :: rest) fun e _ =>
      e = some (.string v.quoted) := by
    unfold Rules.initializer
    refine accept_true_bind hequals (by simp) (by decide) fun _ _ => ?_
    rw [if_pos rfl]
    refine (hr.string v true _ _ blank_space ⟨';', rest, by decide, rfl⟩).bind fun _ _ h => pure ?_
    rw [h]
  unfold Rules.declarator
  refine peek_bind hname fun line place => ?_
  refine (withSource hbinding hname rfl).bind fun (_, source) _ h => ?_
  obtain rfl : source = i.text := h.1
  refine peek_bind hequals fun line' place' => (lineEnds_still .plain).bind_still fun ends _ => ?_
  rw [if_neg (by simp)]
  refine peek_bind hequals fun line' place' => ?_
  rw [if_neg (by simp)]
  refine hvalue.bind fun _ _ h => pure ?_
  rw [h]

def constantText (c : Printed.Constant) (rest : Text) : Text :=
  "const".toList ++ (" ".toList ++ (c.name.text ++ valueText c.value rest))

theorem starts_const (c : Printed.Constant) (hlead : Blank lead) (rest : Text) :
    Starts (lead ++ constantText c rest) .word lead "const".toList
      (" ".toList ++ (c.name.text ++ valueText c.value rest)) :=
  .keyword hlead (by decide) (endsWord_space _)

theorem starts_constantName (c : Printed.Constant) (rest : Text) :
    Starts (" ".toList ++ (c.name.text ++ valueText c.value rest)) .word " ".toList c.name.text
      (valueText c.value rest) :=
  .name c.name blank_space (endsWord_equals c.value rest)

theorem declarations (hr : Ready r n) (c : Printed.Constant) (hlead : Blank lead) (rest : Text) :
    Reads r.declarations (lead ++ constantText c rest) rest fun s _ => s = c.statement := by
  have hs := starts_semicolon rest
  unfold Rules.declarations
  refine (skip (starts_const c hlead rest) (by decide)).bind fun _ _ _ => ?_
  have hcommas : Reads (Parse.commas r.bound r.declarator)
      (" ".toList ++ (c.name.text ++ valueText c.value rest)) (';' :: rest) fun declared _ =>
      declared = [(c.name.text, some (.string c.value.quoted))] := by
    unfold Parse.commas
    refine (declarator hr c.name c.value blank_space rest).bind fun first _ h => ?_
    refine (manyWhile (.stop ⟨_, _, _, _, hs, by simp⟩) (Nat.zero_lt_of_lt hr.bound)).bind
      fun more _ heach => pure ?_
    cases heach
    rw [h]
  refine hcommas.bind fun _ _ h => ?_
  obtain rfl := h
  exact (semicolon hs (stays_semicolon rest _)).bind fun _ _ _ => pure rfl

/-! ## Declarations -/

/-- A word that begins a declaration is no name with a semicolon left out behind it. -/
theorem standsAlone (h : Next (isOneOfWords softWords) t false) :
    Reads standsAlone t t fun b leaves => leaves = [] ∧ b = false := by
  obtain ⟨_, _, _, _, hs, hnone⟩ := h
  unfold Rules.standsAlone
  refine look_still (?_ : Reads _ _ t fun b _ => b = false)
  refine peek_bind hs fun line place => ?_
  rw [hnone, if_pos (by rfl)]
  exact pure rfl

theorem startsFunction (named : Bool) {word : Text} (hs : Starts t .word lead word rest)
    (hasync : word ≠ "async".toList) (hfunction : word ≠ "function".toList) :
    Reads (startsFunction named) t t fun b leaves => leaves = [] ∧ b = false := by
  have hkeyword {w : String} (hw : word ≠ w.toList) : Next (isKeyword w) t false :=
    ⟨_, _, _, _, hs, fun _ _ => (isKeyword_word w).trans (decide_eq_false hw)⟩
  unfold Rules.startsFunction
  refine look_still (?_ : Reads _ _ t fun b _ => b = false)
  refine (discard (accept_false (hkeyword hasync))).bind fun _ _ _ => ?_
  refine accept_false_bind (hkeyword hfunction) ?_
  refine (discard (accept_false ⟨_, _, _, _, hs, fun _ _ => rfl⟩)).bind fun _ _ _ => ?_
  exact peek_bind hs fun line place => pure rfl

theorem behindDecorators (hr : Ready r n) (ds : List Printed.Decorator) (hcount : ds.length ≤ n)
    (hlength : ∀ d ∈ ds, d.text.length ≤ n) {behind word more lead' word' rest' : Text} {kind : TokenKind}
    (hlead : Blank lead) (hbehind : Blank behind) (hne : behind ≠ [])
    (hrest : Starts rest .word [] word more) (hmore : Starts more kind lead' word' rest') :
    Reads r.behindDecorators (lead ++ (decoratorTexts behind ds ++ rest))
      (lead ++ (decoratorTexts behind ds ++ rest)) fun a leaves => leaves = []
        ∧ (∃ lead line place, a.1 = ⟨.word, lead, word, line, place⟩)
        ∧ ∃ line place, a.2 = ⟨kind, lead', word', line, place⟩ := by
  unfold Rules.behindDecorators
  refine look_still (?_ : Reads _ _ ((if ds = [] then lead else behind) ++ rest) fun (a : Token × Token) _ =>
    (∃ lead line place, a.1 = ⟨.word, lead, word, line, place⟩)
      ∧ ∃ line place, a.2 = ⟨kind, lead', word', line, place⟩)
  refine (discard (decorators hr ds hcount hlength hlead hbehind hne hrest)).bind fun _ _ _ => ?_
  have hs := hrest.behind (blank_behind ds hlead hbehind)
  exact peek_bind hs fun line place => ahead_bind hs hmore fun line' place' =>
    pure ⟨⟨_, _, _, rfl⟩, _, _, rfl⟩

def classText (c : Printed.Class) (rest : Text) : Text :=
  "class".toList ++ (" ".toList ++ (c.name.text ++ (classBodyText c.methods ++ rest)))

theorem starts_class (c : Printed.Class) (hlead : Blank lead) (rest : Text) :
    Starts (lead ++ classText c rest) .word lead "class".toList
      (" ".toList ++ (c.name.text ++ (classBodyText c.methods ++ rest))) :=
  .keyword hlead (by decide) (endsWord_space _)

theorem starts_className (c : Printed.Class) (rest : Text) :
    Starts (" ".toList ++ (c.name.text ++ (classBodyText c.methods ++ rest))) .word " ".toList c.name.text
      (classBodyText c.methods ++ rest) :=
  .name c.name blank_space (endsWord_space _)

theorem declarationProper?_class (hr : Ready r n) (c : Printed.Class) (outer : List DecoratorNode)
    (hcount : c.methods.length ≤ n) (hlength : ∀ m ∈ c.methods, m.text.length ≤ n) (rest : Text) :
    Reads (r.declarationProper? outer false) (" ".toList ++ classText c rest) rest fun a _ =>
      ∃ s, a = some s ∧ s.anywhere = .classDecl outer c.node := by
  have hclass : Starts (classText c rest) .word [] "class".toList _ := starts_class c blank_nil rest
  have hs := starts_class c blank_space rest
  unfold Rules.declarationProper?
  refine peek_bind hs fun line place => ?_
  refine (behindDecorators hr [] (Nat.zero_le n) (fun _ h => absurd h List.not_mem_nil) blank_space
    blank_space (List.cons_ne_nil _ _) hclass (starts_className c rest)).bind_still fun (t, next) h => ?_
  obtain ⟨⟨lead, line₁, place₁, rfl⟩, line₂, place₂, rfl⟩ := h
  dsimp only
  rw [if_pos (by simp [startsClass])]
  refine (decorators hr [] (Nat.zero_le n) (fun _ h => absurd h List.not_mem_nil) blank_space
    blank_space (List.cons_ne_nil _ _) hclass).bind fun own _ h => ?_
  obtain rfl := h
  refine (classDeclaration hr c [] line hcount hlength blank_space rest).bind fun node _ h => pure ?_
  exact ⟨_, rfl, by rw [Statement.anywhere, h]; rfl⟩

theorem declarationProper?_constant (hr : Ready r n) (c : Printed.Constant) (outer : List DecoratorNode)
    (rest : Text) :
    Reads (r.declarationProper? outer false) (" ".toList ++ constantText c rest) rest fun a _ =>
      a = some c.statement := by
  have hconst : Starts (constantText c rest) .word [] "const".toList _ := starts_const c blank_nil rest
  have hs := starts_const c blank_space rest
  unfold Rules.declarationProper?
  refine peek_bind hs fun line place => ?_
  refine (behindDecorators hr [] (Nat.zero_le n) (fun _ h => absurd h List.not_mem_nil) blank_space
    blank_space (List.cons_ne_nil _ _) hconst (starts_constantName c rest)).bind_still fun (t, next) h => ?_
  obtain ⟨⟨lead, line₁, place₁, rfl⟩, line₂, place₂, rfl⟩ := h
  dsimp only
  rw [if_neg (by simp [startsClass]), if_neg (by simp)]
  refine (standsAlone ⟨_, _, _, _, hs, by simp [softWords]⟩).bind_still ?_
  rintro _ rfl
  rw [if_neg (by simp)]
  refine (startsFunction false hs (by decide) (by decide)).bind_still ?_
  rintro _ rfl
  have henum : isKeyword "enum" ⟨.word, " ".toList, c.name.text, line₂, place₂⟩ = false :=
    c.name.isKeyword (by simp [languageWords, reservedWords])
  rw [if_neg Bool.false_ne_true, if_neg (by simp), if_neg (by simp), if_neg (by rw [henum]; simp),
    if_pos (by simp [startsVariables])]
  refine map ((declarations hr c blank_space rest).mono fun s _ h => ?_)
  rw [h]

/-! ## Exports -/

section Exported

variable {Q : Statement → Prop} {w : String} {word behind : Text}

theorem exported {outer : List DecoratorNode} (hw : w = "class" ∨ w = "const")
    (hs : Starts t .word lead w.toList rest) (hs' : Starts rest .word " ".toList word behind)
    (hread : Reads (r.declarationProper? outer false) t after fun a _ => ∃ s, a = some s ∧ Q s) :
    Reads (r.exported outer) t after fun s _ => Q s := by
  have hwords (line place : Nat) : isKeyword "default" ⟨.word, lead, w.toList, line, place⟩ = false
      ∧ isKeyword "declare" ⟨.word, lead, w.toList, line, place⟩ = false
      ∧ isOneOfWords softWords ⟨.word, lead, w.toList, line, place⟩ = false := by
    rcases hw with rfl | rfl <;> simp [softWords]
  unfold Rules.exported
  refine accept_false_bind ⟨_, _, _, _, hs, fun _ _ => (hwords _ _).1⟩ ?_
  have hdeclaration : Reads (r.declaration? outer false) t after fun a _ => ∃ s, a = some s ∧ Q s := by
    unfold Rules.declaration?
    refine ahead_bind hs hs' fun line place => peek_bind hs fun line' place' => ?_
    refine (standsAlone ⟨_, _, _, _, hs, fun _ _ => (hwords _ _).2.2⟩).bind_still ?_
    rintro _ rfl
    rw [if_neg (by rw [(hwords line' place').2.1]; simp)]
    exact hread
  refine hdeclaration.bind fun _ _ h => ?_
  obtain ⟨s, rfl, hQ⟩ := h
  exact pure hQ

theorem exportRest (hw : w = "class" ∨ w = "const") (hs : Starts t .word lead w.toList rest)
    (hs' : Starts rest .word " ".toList word behind)
    (hread : Reads (r.exported []) t after fun s _ => Q s) : Reads r.exportRest t after fun s _ => Q s := by
  have hwords (line place : Nat) : isKeyword "as" ⟨.word, lead, w.toList, line, place⟩ = false
      ∧ isKeyword "type" ⟨.word, lead, w.toList, line, place⟩ = false
      ∧ isKeyword "import" ⟨.word, lead, w.toList, line, place⟩ = false := by
    rcases hw with rfl | rfl <;> simp
  unfold Rules.exportRest
  refine peek_bind hs fun line place => ahead_bind hs hs' fun line' place' => ?_
  simp only [isMark_word, hwords, Bool.false_and, Bool.false_eq_true, if_false]
  exact hread

theorem statement_export (hw : w = "class" ∨ w = "const") (hlead : Blank lead)
    (hs : Starts t .word " ".toList w.toList rest) (hs' : Starts rest .word " ".toList word behind)
    (hread : Reads (r.exported []) t after fun s _ => Q s) :
    Reads r.statementRule (lead ++ ("export".toList ++ t)) after fun s _ => Q s := by
  have hends : EndsWord t := by
    rw [hs.text]
    exact endsWord_space _
  have hstays : Stays t := by
    rw [hs.text]
    rcases hw with rfl | rfl <;>
      exact stays_of_solid " ".toList (by simp) (by decide) (by decide) (by decide)
  have hexport : Starts (lead ++ ("export".toList ++ t)) .word lead "export".toList t :=
    .keyword hlead (by decide) hends
  have hstarts (line place : Nat) : startsExport ⟨.word, " ".toList, w.toList, line, place⟩ = true := by
    rcases hw with rfl | rfl <;> simp [startsExport]
  have hline : Reads
      (do
        Parse.skip
        lineEnds .operand)
      (lead ++ ("export".toList ++ t)) t fun b _ => b = false := by
    refine (skip hexport (by decide)).bind fun _ _ _ => ?_
    exact (lineEnds_false hs (hstays _)).mono fun _ _ h => h.2
  unfold Rules.statementRule
  refine peek_bind hexport fun line place => ahead_bind hexport hs fun line' place' => ?_
  rw [if_neg (by simp)]
  refine accept_false_bind ⟨_, _, _, _, hexport, fun _ _ => rfl⟩ ?_
  rw [if_neg Bool.false_ne_true, if_neg (by simp), if_neg (by simp)]
  refine (look_still hline).bind_still ?_
  rintro _ rfl
  rw [if_pos (by rw [hstarts]; simp)]
  exact (skip hexport (by decide)).bind fun _ _ _ => exportRest hw hs hs' hread

end Exported

/-! ## Statements -/

theorem constant_text (c : Printed.Constant) (rest : Text) :
    c.text ++ rest = "export".toList ++ (" ".toList ++ constantText c ('\n' :: rest)) := by
  show "export const ".toList ++ c.name.text ++ " = ".toList ++ c.value.quoted ++ ";\n".toList ++ rest = _
  simp only [List.append_assoc]
  rfl

theorem starts_constant (c : Printed.Constant) (hlead : Blank lead) (rest : Text) :
    Starts (lead ++ (c.text ++ rest)) .word lead "export".toList
      (" ".toList ++ constantText c ('\n' :: rest)) := by
  rw [constant_text]
  exact .keyword hlead (by decide) (endsWord_space _)

theorem statement_constant (hr : Ready r n) (c : Printed.Constant) (hlead : Blank lead) (rest : Text) :
    Reads r.statementRule (lead ++ (c.text ++ rest)) ('\n' :: rest) fun s _ => s = c.statement := by
  have hs := starts_const c blank_space ('\n' :: rest)
  have hs' := starts_constantName c ('\n' :: rest)
  rw [constant_text]
  refine statement_export (.inr rfl) hlead hs hs' (exported (.inr rfl) hs hs' ?_)
  exact (declarationProper?_constant hr c [] _).mono fun a _ h => ⟨_, h, rfl⟩

theorem class_text (c : Printed.Class) (rest : Text) :
    c.text ++ rest = "\n".toList ++ (decoratorTexts "\n".toList c.decorators
      ++ ("export".toList ++ (" ".toList ++ classText c ('\n' :: rest)))) := by
  show '\n' :: decoratorTexts "\n".toList c.decorators ++ "export class ".toList ++ c.name.text
    ++ " \x7b\n".toList ++ c.methods.flatMap Printed.Method.text ++ "\x7d\n".toList ++ rest = _
  unfold classText classBodyText
  simp only [List.append_assoc]
  rfl

theorem starts_export (c : Printed.Class) (hlead : Blank lead) (rest : Text) :
    Starts (lead ++ ("export".toList ++ (" ".toList ++ classText c rest))) .word lead "export".toList
      (" ".toList ++ classText c rest) :=
  .keyword hlead (by decide) (endsWord_space _)

/-- A class begins with its `export`, or with the mark of a decorator. -/
theorem starts_exportedClass (c : Printed.Class) (hlead : Blank lead) (rest : Text) :
    ∃ kind first more, Starts (lead ++ (c.text ++ rest)) kind (lead ++ "\n".toList) first more
      ∧ (∃ kind lead word rest, Starts more kind lead word rest)
      ∧ (c.decorators = [] ∧ kind = .word ∧ first = "export".toList ∨ kind = .mark ∧ first = ['@']) := by
  rw [class_text, ← List.append_assoc]
  exact starts_decorators c.decorators (hlead.append blank_line) blank_line (List.cons_ne_nil _ _)
    (starts_export c blank_nil _) ⟨_, _, _, _, starts_class c blank_space _⟩

theorem lengths_class {c : Printed.Class} (hlength : c.text.length ≤ n) :
    (c.decorators.length ≤ n ∧ ∀ d ∈ c.decorators, d.text.length ≤ n)
      ∧ c.methods.length ≤ n ∧ ∀ m ∈ c.methods, m.text.length ≤ n := by
  obtain ⟨hdecorators, hds⟩ := lengths_decorators "\n".toList c.decorators
  obtain ⟨hmethods, hms⟩ :=
    lengths_flatMap (f := Printed.Method.text) fun m (_ : m ∈ c.methods) => Nat.zero_lt_succ _
  have hwhole := congrArg List.length (class_text c [])
  unfold classText classBodyText at hwhole
  simp only [List.append_nil, List.length_append] at hwhole
  refine ⟨⟨by omega, fun d hd => ?_⟩, by omega, fun m hm => ?_⟩
  · have hd := hds d hd
    omega
  · have hm := hms m hm
    omega

theorem exported_class (hr : Ready r n) (c : Printed.Class) (hlength : c.text.length ≤ n)
    (outer : List DecoratorNode) (rest : Text) :
    Reads (r.exported outer) (" ".toList ++ classText c ('\n' :: rest)) ('\n' :: rest) fun s _ =>
      s.anywhere = .classDecl outer c.node := by
  obtain ⟨-, hcount, hms⟩ := lengths_class hlength
  exact exported (Q := fun s => s.anywhere = .classDecl outer c.node) (.inl rfl)
    (starts_class c blank_space _) (starts_className c _) (declarationProper?_class hr c outer hcount hms _)

theorem decorated_class (hr : Ready r n) (c : Printed.Class) (hlength : c.text.length ≤ n)
    (hlead : Blank lead) (rest : Text) :
    Reads r.decorated
      (lead ++ (decoratorTexts "\n".toList c.decorators
        ++ ("export".toList ++ (" ".toList ++ classText c ('\n' :: rest))))) ('\n' :: rest) fun s _ =>
      s.anywhere = c.statement := by
  obtain ⟨⟨hdecorators, hds⟩, -, -⟩ := lengths_class hlength
  have hs := starts_class c blank_space ('\n' :: rest)
  have hexport : Starts ("export".toList ++ (" ".toList ++ classText c ('\n' :: rest))) .word []
      "export".toList _ := starts_export c blank_nil _
  unfold Rules.decorated
  refine (behindDecorators hr c.decorators hdecorators hds hlead blank_line (List.cons_ne_nil _ _)
    hexport hs).bind_still fun found h => ?_
  obtain ⟨t, next⟩ := found
  obtain ⟨⟨lead', line, place, rfl⟩, -⟩ := h
  dsimp only
  rw [if_pos (by simp)]
  refine (decorators hr c.decorators hdecorators hds hlead blank_line (List.cons_ne_nil _ _)
    hexport).bind fun outer _ houter => ?_
  have hblank := blank_behind c.decorators hlead blank_line
  refine (skip (starts_export c hblank _) (by decide)).bind fun _ _ _ => ?_
  rw [houter]
  exact exported_class hr c hlength _ rest

theorem statement_class (hr : Ready r n) (c : Printed.Class) (hlength : c.text.length ≤ n)
    (hlead : Blank lead) (rest : Text) :
    Reads r.statementRule (lead ++ (c.text ++ rest)) ('\n' :: rest) fun s _ =>
      s.anywhere = c.statement := by
  have hs := starts_class c blank_space ('\n' :: rest)
  have hs' := starts_className c ('\n' :: rest)
  have hline : Blank (lead ++ "\n".toList) := hlead.append blank_line
  obtain ⟨kind, first, more, hfirst, ⟨_, _, _, _, hnext⟩, hkind⟩ := starts_exportedClass c hlead rest
  rw [class_text, ← List.append_assoc] at hfirst ⊢
  obtain ⟨hnone, -, -⟩ | ⟨rfl, rfl⟩ := hkind
  · rw [Class.statement, hnone]
    exact statement_export (Q := fun s => s.anywhere = .classDecl [] c.node) (.inl rfl) hline hs hs'
      (exported_class hr c hlength [] rest)
  · unfold Rules.statementRule
    refine peek_bind hfirst fun line place => ahead_bind hfirst hnext fun line' place' => ?_
    rw [if_neg (by simp)]
    refine accept_false_bind ⟨_, _, _, _, hfirst, by simp⟩ ?_
    rw [if_neg Bool.false_ne_true, if_pos (by simp)]
    exact decorated_class hr c hlength hline rest

end Reads

end NestClient.TypeScript
