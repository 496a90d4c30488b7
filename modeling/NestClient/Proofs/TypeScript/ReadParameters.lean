import NestClient.Proofs.TypeScript.ReadTypes

/-! Written literals, decorators and parameters are read to their nodes. A literal is closed by a comma,
a parenthesis or a semicolon; the name of a parameter may have a question mark and a type behind it. -/

namespace NestClient.TypeScript

open Printed

/-! ## What closes an operand -/

section

variable {t : Text}

/-- A text that closes an operand. -/
def ClosesOperand (t : Text) : Prop := ∃ c rest, c ∈ ",):;".toList ∧ t = c :: rest

theorem ClosesOperand.starts (h : ClosesOperand t) :
    ∃ c rest, c ∈ ",):;".toList ∧ Starts t .mark [] [c] rest := by
  obtain ⟨c, rest, hc, rfl⟩ := h
  have hlone : c ∈ loneMarks := by
    have hall : (",):;".toList.all fun c => loneMarks.contains c) = true := by decide
    simpa using List.all_eq_true.1 hall c hc
  exact ⟨c, rest, hc, .lone blank_nil hlone rest⟩

theorem ClosesOperand.stays (h : ClosesOperand t) : Stays t := by
  obtain ⟨c, rest, hc, rfl⟩ := h
  have hcases : c = ',' ∨ c = ')' ∨ c = ':' ∨ c = ';' := by simpa using hc
  rcases hcases with rfl | rfl | rfl | rfl <;>
    exact stays_of_solid [] (by simp) (by decide) (by decide) (by decide)

theorem mem_separators {d : Char} (hd : d ∈ ":),".toList) : d ∈ separators := by
  have hcases : d = ':' ∨ d = ')' ∨ d = ',' := by simpa using hd
  rcases hcases with rfl | rfl | rfl <;> decide

/-- A text before which the name of a parameter ends: what closes it, or the question mark of an
optional parameter. -/
def EndsPattern (t : Text) : Prop :=
  ClosesOperand t ∨ ∃ d rest, d ∈ ":),".toList ∧ t = '?' :: d :: rest

theorem EndsPattern.starts (h : EndsPattern t) :
    ∃ c rest, c ∈ ",):;?".toList ∧ Starts t .mark [] [c] rest := by
  obtain h | ⟨d, rest, hd, rfl⟩ := h
  · obtain ⟨c, rest, hc, hs⟩ := h.starts
    exact ⟨c, rest, List.mem_append_left "?".toList hc, hs⟩
  · exact ⟨'?', d :: rest, by decide, .before blank_nil (by decide) (mem_separators hd) rest⟩

theorem EndsPattern.endsWord (h : EndsPattern t) : EndsWord t := by
  obtain ⟨c, rest, hc, rfl⟩ | ⟨d, rest, -, rfl⟩ := h
  · have hcases : c = ',' ∨ c = ')' ∨ c = ':' ∨ c = ';' := by simpa using hc
    refine endsWord_cons rest ?_
    rcases hcases with rfl | rfl | rfl | rfl <;> decide
  · exact endsWord_cons _ (by decide)

theorem EndsPattern.stays (h : EndsPattern t) : Stays t := by
  obtain h | ⟨d, rest, -, rfl⟩ := h
  · exact h.stays
  · exact stays_of_solid [] (by simp) (by decide) (by decide) (by decide)

end

namespace Reads

open Parse Rules

variable {r : Rules} {t lead after rest : Text}

/-! ## Operands -/

/-- What closes an operand is no operator. -/
theorem step_stops {pending : Pending} {semicolon : Bool} {e : Expr} {c : Char}
    (hc : c ∈ ",):;?".toList) (hs : Starts t .mark [] [c] rest) (hstays : Stays t)
    (hbranches : Reads startsBranches t t fun b leaves => leaves = [] ∧ b = false)
    (hplace : c = '?' → pending = .place) :
    Reads (r.step pending semicolon e) t t fun next leaves => next = none ∧ leaves = [] := by
  have hcases : c = ',' ∨ c = ')' ∨ c = ':' ∨ c = ';' ∨ c = '?' := by simpa using hc
  unfold Rules.step
  refine peek_bind hs fun line place => lineEnds_bind hs (hstays .operand) ?_
  have hmarks : isMark "." ⟨.mark, [], [c], line, place⟩ = false
      ∧ isMark "?." ⟨.mark, [], [c], line, place⟩ = false
      ∧ isMark "[" ⟨.mark, [], [c], line, place⟩ = false
      ∧ isMark "\x60" ⟨.mark, [], [c], line, place⟩ = false
      ∧ isMark "(" ⟨.mark, [], [c], line, place⟩ = false
      ∧ isMark "<" ⟨.mark, [], [c], line, place⟩ = false
      ∧ isMark "!" ⟨.mark, [], [c], line, place⟩ = false
      ∧ isOneOfMarks ["++", "--"] ⟨.mark, [], [c], line, place⟩ = false := by
    rcases hcases with rfl | rfl | rfl | rfl | rfl <;> simp
  simp only [hmarks, isOneOfWords_mark, Bool.false_and, Bool.and_false, Bool.false_eq_true, if_false]
  refine hbranches.bind_still ?_
  rintro _ rfl
  rw [if_neg Bool.false_ne_true]
  by_cases hpending : pending = .place
  · rw [if_pos hpending]
    exact pure ⟨rfl, rfl⟩
  · rw [if_neg hpending]
    have hclosed : c = ',' ∨ c = ')' ∨ c = ':' ∨ c = ';' := by
      simpa [mt hplace hpending] using hcases
    have hnone : isMark "=" ⟨.mark, [], [c], line, place⟩ = false
        ∧ isOneOfMarks assignmentMarks ⟨.mark, [], [c], line, place⟩ = false
        ∧ Rank.ofToken? ⟨.mark, [], [c], line, place⟩ = none := by
      rcases hclosed with rfl | rfl | rfl | rfl <;> simp [assignmentMarks, Rank.ofToken?, Rank.marks]
    unfold Rules.binaryStep
    simp only [hnone, Bool.false_and, Bool.false_eq_true, if_false]
    exact pure ⟨rfl, rfl⟩

theorem startsBranches_closed (h : ClosesOperand t) :
    Reads startsBranches t t fun b leaves => leaves = [] ∧ b = false := by
  obtain ⟨c, rest, hc, hs⟩ := h.starts
  have hcases : c = ',' ∨ c = ')' ∨ c = ':' ∨ c = ';' := by simpa using hc
  refine get_bind hs fun cursor _ hnext => ?_
  obtain ⟨line, place, hnext⟩ := hnext
  rw [hnext]
  rcases hcases with rfl | rfl | rfl | rfl <;> exact pure ⟨rfl, by simp⟩

theorem string {pending : Pending} {semicolon : Bool} (v : StringValue) (hlead : Blank lead)
    (hafter : ClosesOperand after) (hbound : 0 < r.bound) :
    Reads (r.expressionRule pending semicolon) (lead ++ (v.quoted ++ after)) after fun e _ =>
      e = .string v.quoted := by
  have hs : Starts (lead ++ (v.quoted ++ after)) .string lead v.quoted after := .string v hlead after
  have hoperand : Reads (r.operandRule semicolon) (lead ++ (v.quoted ++ after)) after fun e _ =>
      e = .string v.quoted := by
    unfold Rules.operandRule
    refine peek_bind hs fun line place => ?_
    exact (skip hs (by decide)).bind fun _ _ _ => pure rfl
  unfold Rules.expressionRule
  refine hoperand.bind fun e _ he => ?_
  obtain ⟨c, rest, hc, hstops⟩ := hafter.starts
  have hquestion : c = '?' → pending = .place := by
    rintro rfl
    exact absurd hc (by decide)
  refine iterate_last hbound ?_
  refine (step_stops (List.mem_append_left "?".toList hc) hstops hafter.stays
    (startsBranches_closed hafter) hquestion).mono fun next _ h => ⟨h.1, he⟩

/-! ## Names of parameters -/

/-- A question mark before the end of a parameter begins no condition. -/
theorem startsBranches_pattern (h : EndsPattern t) :
    Reads startsBranches t t fun b leaves => leaves = [] ∧ b = false := by
  obtain h | ⟨d, rest, hd, rfl⟩ := h
  · exact startsBranches_closed h
  · have hs : Starts ('?' :: d :: rest) .mark [] ['?'] (d :: rest) :=
      .before blank_nil (by decide) (mem_separators hd) rest
    have hwhite : LineEnd.isLineSpace d = false := by
      have hall : (":),".toList.all fun d => !LineEnd.isLineSpace d) = true := by decide
      simpa using List.all_eq_true.1 hall d hd
    refine get_bind hs fun cursor hrest _ => ?_
    rw [hrest, List.dropWhile_cons_of_neg (by simp [hwhite])]
    have hend : ":),".toList.contains d = true := by simpa using hd
    refine pure ⟨rfl, ?_⟩
    rw [List.head?_cons, Option.any_some, hend, Bool.not_true, Bool.and_false]

theorem words_operand : "function" ∈ languageWords ∧ "async" ∈ languageWords ∧ "class" ∈ languageWords
    ∧ "new" ∈ languageWords ∧ "import" ∈ languageWords ∧ "yield" ∈ languageWords
    ∧ "namespace" ∈ languageWords ∧ "using" ∈ languageWords ∧ "await" ∈ languageWords := by
  simp [languageWords, reservedWords, contextualWords]

theorem words_unary : ∀ w ∈ ["typeof", "void", "delete"], w ∈ languageWords := by
  simp [languageWords, reservedWords]

theorem words_value : ∀ w ∈ ["this", "super", "null", "true", "false", "undefined"],
    w ∈ languageWords := by
  simp [languageWords, reservedWords, typeWords]

/-- A name is an expression as far as the end of the pattern that it makes. -/
theorem name_place (i : Identifier) (hlead : Blank lead) (hafter : EndsPattern after)
    (hbound : 0 < r.bound) :
    Reads (r.expressionRule .place false) (lead ++ (i.text ++ after)) after fun e _ =>
      e = .plain .identifier := by
  obtain ⟨c, rest, hc, hstops⟩ := hafter.starts
  have hs : Starts (lead ++ (i.text ++ after)) .word lead i.text after := .name i hlead hafter.endsWord
  have hoperand : Reads (r.operandRule false) (lead ++ (i.text ++ after)) after fun e _ =>
      e = .plain .identifier := by
    unfold Rules.operandRule
    refine peek_bind hs fun line place => ?_
    dsimp only
    unfold Rules.wordValue
    refine peek_bind hs fun line place => ?_
    simp only [i.isKeyword, words_operand, i.isOneOfWords words_unary, i.isOneOfWords words_value,
      Bool.false_eq_true, if_false]
    refine (skip hs (by decide)).bind fun _ _ _ => ?_
    unfold Rules.nameRest
    refine peek_bind hstops fun line place => ?_
    rw [if_neg (by simp)]
    exact pure rfl
  unfold Rules.expressionRule
  refine hoperand.bind fun e _ he => ?_
  refine iterate_last hbound ?_
  exact (step_stops hc hstops hafter.stays (startsBranches_pattern hafter) fun _ => rfl).mono
    fun next _ h => ⟨h.1, he⟩

theorem destructuring?_word {word : Text} (hs : Starts t .word lead word rest) :
    Reads r.destructuring? t t fun b leaves => leaves = [] ∧ b = false := by
  have hnone (m : String) : Next (isMark m) t false := ⟨_, _, _, _, hs, fun _ _ => rfl⟩
  unfold Rules.destructuring?
  refine accept_false_bind (hnone _) ?_
  refine accept_false_bind (hnone _) ?_
  exact pure ⟨rfl, rfl⟩

theorem patternRule (i : Identifier) (hlead : Blank lead) (hafter : EndsPattern after)
    (hplace : Reads (r.read (.expression .place false)) (lead ++ (i.text ++ after)) after fun e _ =>
      e = .plain .identifier) :
    Reads r.patternRule (lead ++ (i.text ++ after)) after fun _ _ => True := by
  have hs : Starts (lead ++ (i.text ++ after)) .word lead i.text after := .name i hlead hafter.endsWord
  unfold Rules.patternRule
  refine (destructuring?_word hs).bind_still ?_
  rintro _ rfl
  refine peek_bind hs fun line place => ?_
  rw [if_neg (by simp)]
  refine hplace.bind fun e _ he => ?_
  rw [he]
  exact pure trivial

end Reads

/-- The rules read what is written inside of a class, as far as it is no longer than this. -/
structure Ready (r : Rules) (n : Nat) : Prop where
  bound : n < r.bound
  type : ∀ t : TypeExpr, t.text.length ≤ n → ReadsType r t
  string : ∀ (v : StringValue) (semicolon : Bool) (lead after : Text), Blank lead →
    ClosesOperand after →
      Reads (r.expression semicolon) (lead ++ (v.quoted ++ after)) after fun e _ => e = .string v.quoted
  name : ∀ (i : Identifier) (lead after : Text), Blank lead → EndsPattern after →
    Reads r.pattern (lead ++ (i.text ++ after)) after fun _ _ => True

theorem ready {bound depth n : Nat} (hbound : n < bound) (hdepth : n + 2 < depth) :
    Ready ⟨bound, readGoal bound depth⟩ n := by
  obtain ⟨depth, rfl⟩ := Nat.exists_eq_succ_of_ne_zero (Nat.ne_zero_of_lt hdepth)
  have hpos : 0 < bound := Nat.zero_lt_of_lt hbound
  refine ⟨hbound, fun t ht => ?_, fun v semicolon lead after hlead hafter => ?_,
    fun i lead after hlead hafter => ?_⟩
  · exact Reads.readsType t (Nat.lt_of_le_of_lt ht hbound) (by omega)
  · exact Reads.string (r := ⟨bound, readGoal bound depth⟩) v hlead hafter hpos
  · obtain ⟨depth, rfl⟩ := Nat.exists_eq_succ_of_ne_zero (n := depth) (by omega)
    exact Reads.patternRule (r := ⟨bound, readGoal bound (depth + 1)⟩) i hlead hafter
      (Reads.name_place (r := ⟨bound, readGoal bound depth⟩) i hlead hafter hpos)

namespace Reads

open Parse Rules

variable {r : Rules} {n : Nat} {t lead after rest : Text}

/-! ## Decorators -/

theorem arguments (hr : Ready r n) (vs : List StringValue) (hcount : vs.length ≤ n) (after : Text) :
    Reads r.arguments ('(' :: (listed (vs.map StringValue.quoted) ++ ')' :: after)) after fun as _ =>
      as = vs.map StringValue.node := by
  have hopen : Starts ('(' :: (listed (vs.map StringValue.quoted) ++ ')' :: after)) .mark [] ['('] _ :=
    .lone blank_nil (by decide) _
  have hclose : Starts (')' :: after) .mark [] [')'] after := .lone blank_nil (by decide) after
  have hliteral (v : StringValue) {lead after' : Text} (hlead : lead = [] ∨ lead = " ".toList) :
      Starts (lead ++ (v.quoted ++ after')) .string lead v.quoted after' :=
    .string v (blank_lead hlead) after'
  have hcloses {after' : Text} (h : after' = ')' :: after ∨ ∃ more, after' = ',' :: ' ' :: more) :
      ClosesOperand after' :=
    behind_item ⟨')', after, by decide, rfl⟩ (fun more => ⟨',', ' ' :: more, by decide, rfl⟩) h
  have hitems : ReadsItems
      (do
        let read ← Parse.withSource r.spreadable
        return (⟨read.2, read.1⟩ : ArgumentNode))
      StringValue.quoted ')' (')' :: after) vs fun _ v a _ => a = v.node := by
    refine ⟨fun v _ lead hlead after' hafter => ?_, fun v _ lead hlead after' _ => ?_⟩
    · have hs : Starts (lead ++ (v.quoted ++ after')) .string lead v.quoted after' := hliteral v hlead
      have hspread : Reads r.spreadable (lead ++ (v.quoted ++ after')) after' fun e _ =>
          e = .string v.quoted := by
        have hnone : Next (isMark "...") (lead ++ (v.quoted ++ after')) false :=
          ⟨_, _, _, _, hs, fun _ _ => rfl⟩
        unfold Rules.spreadable
        refine accept_false_bind hnone ?_
        exact hr.string v false lead after' (blank_lead hlead) (hcloses hafter)
      refine (withSource hspread hs rfl).bind fun a _ ha => pure ?_
      rw [ha.1, ha.2, StringValue.node]
    · exact ⟨_, _, _, _, hliteral v hlead, fun _ _ => rfl⟩
  have hfirst : ∀ v ∈ vs, ∀ lead, lead = [] ∨ lead = " ".toList →
      ∀ after', after' = ')' :: after ∨ (∃ more, after' = ',' :: ' ' :: more) →
        Next (fun t => isMark "," t || startsMark ')' t) (lead ++ (v.quoted ++ after')) false :=
    fun v _ lead hlead after' _ => ⟨_, _, _, _, hliteral v hlead, fun _ _ => rfl⟩
  unfold Rules.arguments
  refine (mark (m := "(") hopen).bind fun _ _ _ => ?_
  refine (sparseList hitems hfirst (.inl rfl) (by decide) hclose
    (Nat.lt_of_le_of_lt hcount hr.bound)).mono fun as _ h => eq_map_of_forall₂ h

theorem decoratorTexts_cons (behind : Text) (d : Printed.Decorator) (ds : List Printed.Decorator)
    (rest : Text) :
    decoratorTexts behind (d :: ds) ++ rest
      = d.text ++ (behind ++ (decoratorTexts behind ds ++ rest)) := by
  simp [decoratorTexts]

/-- A text that begins with a word or a decorator. -/
def StartsDecorated (t : Text) : Prop :=
  (∃ lead word rest, Starts t .word lead word rest) ∨ ∃ lead rest, Starts t .mark lead ['@'] rest

namespace StartsDecorated

theorem isMark (h : StartsDecorated t) {m : String} (hm : m.toList ≠ ['@']) :
    Next (isMark m) t false := by
  obtain ⟨lead, word, rest, hs⟩ | ⟨lead, rest, hs⟩ := h
  · exact ⟨_, _, _, _, hs, fun _ _ => rfl⟩
  · exact ⟨_, _, _, _, hs, fun _ _ => by simpa using hm.symm⟩

theorem startsMark (h : StartsDecorated t) {c : Char} (hc : c ≠ '@') : Next (startsMark c) t false := by
  obtain ⟨lead, word, rest, hs⟩ | ⟨lead, rest, hs⟩ := h
  · exact ⟨_, _, _, _, hs, fun _ _ => rfl⟩
  · exact ⟨_, _, _, _, hs, fun _ _ => by simpa using hc.symm⟩

theorem decorators (ds : List Printed.Decorator) {behind word more : Text} (hlead : Blank lead)
    (hrest : Starts rest .word [] word more) :
    StartsDecorated (lead ++ (decoratorTexts behind ds ++ rest)) := by
  cases ds with
  | nil => exact .inl ⟨_, _, _, hrest.behind hlead⟩
  | cons d ds =>
    rw [decoratorTexts_cons]
    exact .inr ⟨_, _, .lone hlead (by decide) _⟩

end StartsDecorated

/-- A text before which a decorator ends. -/
structure EndsDecorator (t : Text) : Prop where
  next : StartsDecorated t
  endsWord : EndsWord t

theorem dottedName (i : Identifier) (hlead : Blank lead) (hword : EndsWord after)
    (hpoint : Next (isMark ".") after false) (hbound : 0 < r.bound) :
    Reads (Parse.withSource r.dottedName) (lead ++ (i.text ++ after)) after fun a _ => a.2 = i.text := by
  have hs : Starts (lead ++ (i.text ++ after)) .word lead i.text after := .name i hlead hword
  have hstop : Next (fun t => !isMark "." t) after true := by
    obtain ⟨kind, lead, word, rest, hs, htest⟩ := hpoint
    exact ⟨kind, lead, word, rest, hs, fun line place => by simp [htest]⟩
  have hdotted : Reads r.dottedName (lead ++ (i.text ++ after)) after fun _ _ => True := by
    unfold Rules.dottedName
    refine (name hs).bind fun _ _ _ => ?_
    exact (discard (manyWhile (.stop hstop) hbound)).mono fun _ _ _ => trivial
  exact (withSource hdotted hs rfl).mono fun _ _ h => h.1

theorem call_plain (i : Identifier) (hafter : EndsDecorator after) (hbound : 0 < r.bound) :
    Reads (Rules.decorator.call r) (i.text ++ after) after fun node _ =>
      node = Decorator.node ⟨i, none⟩ := by
  obtain ⟨_, _, _, _, hopen, hnone⟩ := hafter.next.isMark (m := "(") (by decide)
  obtain ⟨_, _, _, _, hangle, huntyped⟩ := hafter.next.startsMark (c := '<') (by decide)
  unfold Rules.decorator.call
  refine (dottedName i blank_nil hafter.endsWord (hafter.next.isMark (by decide)) hbound).bind
    fun (_, source) _ hsource => ?_
  obtain rfl : source = i.text := hsource
  refine peek_bind hangle fun line place => ?_
  simp only [huntyped, Bool.false_eq_true, if_false]
  refine peek_bind hopen fun line place => ?_
  rw [if_neg (ne_true_of_eq_false (hnone line place))]
  exact pure rfl

theorem call_arguments (hr : Ready r n) (i : Identifier) (vs : List StringValue)
    (hcount : vs.length ≤ n) (after : Text) :
    Reads (Rules.decorator.call r)
      (i.text ++ '(' :: (listed (vs.map StringValue.quoted) ++ ')' :: after)) after fun node _ =>
      node = Decorator.node ⟨i, some vs⟩ := by
  have hopen : Starts ('(' :: (listed (vs.map StringValue.quoted) ++ ')' :: after)) .mark [] ['('] _ :=
    .lone blank_nil (by decide) _
  have hpoint : Next (isMark ".") ('(' :: (listed (vs.map StringValue.quoted) ++ ')' :: after)) false :=
    ⟨_, _, _, _, hopen, by simp⟩
  unfold Rules.decorator.call
  refine (dottedName i blank_nil (endsWord_cons _ (by decide)) hpoint
    (Nat.zero_lt_of_lt hr.bound)).bind fun (_, source) _ hsource => ?_
  obtain rfl : source = i.text := hsource
  refine peek_bind hopen fun line place => ?_
  simp only [startsMark_mark, List.head?_cons, Option.some.injEq, Char.reduceEq, decide_false,
    Bool.false_eq_true, if_false]
  refine peek_bind hopen fun line place => ?_
  rw [if_pos (by simp)]
  refine (arguments hr vs hcount after).bind fun as _ has => pure ?_
  rw [has]
  rfl

theorem decorator (hr : Ready r n) (d : Printed.Decorator) (hlength : d.text.length ≤ n)
    (hlead : Blank lead) (hafter : EndsDecorator after) :
    Reads r.decorator (lead ++ (d.text ++ after)) after fun node _ => node = d.node := by
  have hpos : 0 < r.bound := Nat.zero_lt_of_lt hr.bound
  obtain ⟨i, args⟩ := d
  have hwhole {behind : Text} (hword : EndsWord behind)
      (hcall : Reads (Rules.decorator.call r) (i.text ++ behind) after fun node _ =>
        node = Decorator.node ⟨i, args⟩) :
      Reads r.decorator (lead ++ '@' :: (i.text ++ behind)) after fun node _ =>
        node = Decorator.node ⟨i, args⟩ := by
    have hat : Starts (lead ++ '@' :: (i.text ++ behind)) .mark lead ['@'] _ :=
      .lone hlead (by decide) _
    have hname : Starts (i.text ++ behind) .word [] i.text behind := .name i blank_nil hword
    unfold Rules.decorator
    refine (mark (m := "@") hat).bind fun _ _ _ => peek_bind hname fun line place => ?_
    rw [if_neg (by simp)]
    exact hcall
  cases args with
  | none =>
    have htext : Decorator.text ⟨i, none⟩ ++ after = '@' :: (i.text ++ after) := by
      simp [Decorator.text]
    rw [htext]
    exact hwhole hafter.endsWord (call_plain i hafter hpos)
  | some vs =>
    have htext : Decorator.text ⟨i, some vs⟩ ++ after
        = '@' :: (i.text ++ '(' :: (listed (vs.map StringValue.quoted) ++ ')' :: after)) := by
      simp [Decorator.text]
    have hcount : vs.length ≤ n := by
      have hlisted := (lengths_listed (vs.map StringValue.quoted)).1
      have hwhole := congrArg List.length htext
      simp only [List.length_append, List.length_cons, List.length_map] at hlisted hwhole
      omega
    rw [htext]
    exact hwhole (endsWord_cons _ (by decide)) (call_arguments hr i vs hcount after)

/-- Blanks stand behind the last decorator as before the first. -/
theorem blank_behind {behind : Text} (ds : List Printed.Decorator) (hlead : Blank lead)
    (hbehind : Blank behind) : Blank (if ds = [] then lead else behind) := by
  split
  · exact hlead
  · exact hbehind

/-- What reads one decorator reads all of them that stand one behind the other. -/
theorem eachDecorator {α : Type} {item : Parse α} {f : Printed.Decorator → α} {behind word more : Text}
    {ds : List Printed.Decorator} (hone : ∀ d ∈ ds, ∀ lead later, Blank lead →
      Reads item (lead ++ (d.text ++ (behind ++ (decoratorTexts behind later ++ rest))))
        (behind ++ (decoratorTexts behind later ++ rest)) fun a _ => a = f d)
    (hcount : ds.length < n) (hlead : Blank lead) (hbehind : Blank behind)
    (hrest : Starts rest .word [] word more) :
    Reads (Parse.manyWhile n (isMark "@") item) (lead ++ (decoratorTexts behind ds ++ rest))
      ((if ds = [] then lead else behind) ++ rest) fun as _ => as = ds.map f := by
  have hrun : Run (fun t => !isMark "@" t) item (lead ++ (decoratorTexts behind ds ++ rest))
      (ds.map fun d a _ => a = f d) ((if ds = [] then lead else behind) ++ rest) := by
    clear hcount
    induction ds generalizing lead with
    | nil => exact .stop ⟨_, _, _, _, hrest.behind hlead, fun _ _ => rfl⟩
    | cons d ds ih =>
      have hat : Starts (lead ++ (d.text ++ (behind ++ (decoratorTexts behind ds ++ rest)))) .mark lead
          ['@'] _ := .lone hlead (by decide) _
      have hafter := ih (fun e he => hone e (List.mem_cons_of_mem d he)) hbehind
      rw [ite_self] at hafter
      rw [decoratorTexts_cons, if_neg (List.cons_ne_nil d ds)]
      exact .item ⟨_, _, _, _, hat, fun _ _ => by simp⟩ (hone d List.mem_cons_self lead ds hlead) hafter
  have hbound : (ds.map fun d a (_ : List Leaf) => a = f d).length < n := by rwa [List.length_map]
  exact (manyWhile hrun hbound).mono fun as _ h => eq_map_of_forall₂ h.forall₂_map

theorem endsDecorator {behind word more : Text} (later : List Printed.Decorator) (hbehind : Blank behind)
    (hne : behind ≠ []) (hrest : Starts rest .word [] word more) :
    EndsDecorator (behind ++ (decoratorTexts behind later ++ rest)) :=
  ⟨.decorators later hbehind hrest, hbehind.endsWord hne _⟩

theorem decorators (hr : Ready r n) (ds : List Printed.Decorator) (hcount : ds.length ≤ n)
    (hlength : ∀ d ∈ ds, d.text.length ≤ n) {behind word more : Text} (hlead : Blank lead)
    (hbehind : Blank behind) (hne : behind ≠ []) (hrest : Starts rest .word [] word more) :
    Reads r.decorators (lead ++ (decoratorTexts behind ds ++ rest))
      ((if ds = [] then lead else behind) ++ rest) fun nodes _ => nodes = ds.map Decorator.node :=
  eachDecorator (fun d hd _ later hlead =>
      decorator hr d (hlength d hd) hlead (endsDecorator later hbehind hne hrest))
    (Nat.lt_of_le_of_lt hcount hr.bound) hlead hbehind hrest

/-! ## Modifiers -/

theorem fits_cons_eq_false {slots : Slots} {w : Text} (ws : List Text)
    (h : ∀ s ∈ slots.flatten, s.toList ≠ w) : fits slots (w :: ws) = false := by
  induction slots with
  | nil => rfl
  | cons slot slots ih =>
    have hslot : (slot.any fun s => s.toList = w) = false :=
      List.any_eq_false.2 fun s hs => by simpa using h s (List.mem_append_left slots.flatten hs)
    have hslots := ih fun s hs => h s (List.mem_append_right slot hs)
    rw [fits, if_neg (by simp [hslot]), hslots]

theorem fits_identifier {slots : Slots} (i : Identifier) (ws : List Text)
    (h : ∀ s ∈ slots.flatten, s = "*" ∨ s ∈ languageWords) : fits slots (i.text :: ws) = false := by
  refine fits_cons_eq_false ws fun s hs => ?_
  obtain rfl | hs := h s hs
  · intro hstar
    have hword := i.start
    rw [← hstar] at hword
    exact absurd hword (by decide)
  · exact (i.text_ne hs).symm

theorem words_parameterSlots : ∀ s ∈ parameterSlots.flatten, s = "*" ∨ s ∈ languageWords := by
  decide

theorem skipParameterModifiers (i : Identifier) (hlead : Blank lead) (hafter : EndsPattern after)
    (hbound : 0 < r.bound) :
    Reads r.skipParameterModifiers (lead ++ (i.text ++ after)) (lead ++ (i.text ++ after))
      fun _ leaves => leaves = [] ∧ True := by
  have hs : Starts (lead ++ (i.text ++ after)) .word lead i.text after := .name i hlead hafter.endsWord
  obtain ⟨c, rest, -, hs'⟩ := hafter.starts
  unfold Rules.skipParameterModifiers
  refine (discard (iterate_last (Q := fun _ leaves => leaves = []) hbound ?_)).mono
    fun _ leaves h => ⟨h.choose_spec, trivial⟩
  refine peek_bind hs fun line place => ahead_bind hs hs' fun line' place' => ?_
  simp only [List.nil_append, fits_identifier i [] words_parameterSlots, Bool.and_false, Bool.false_and,
    Bool.false_eq_true, if_false]
  exact pure ⟨rfl, rfl⟩

/-! ## Parameters -/

theorem restPattern (hr : Ready r n) (i : Identifier) (hlead : Blank lead) (hafter : EndsPattern after) :
    Reads r.restPattern (lead ++ (i.text ++ after)) after fun single _ => single = true := by
  have hs : Starts (lead ++ (i.text ++ after)) .word lead i.text after := .name i hlead hafter.endsWord
  unfold Rules.restPattern
  refine accept_false_bind ⟨_, _, _, _, hs, fun _ _ => rfl⟩ ?_
  exact (hr.name i lead after hlead hafter).bind fun _ _ _ => pure rfl

/-- A text that ends a parameter. -/
def ClosesParameter (t : Text) : Prop := ∃ c rest, c ∈ ",)".toList ∧ t = c :: rest

theorem ClosesParameter.closesType (h : ClosesParameter t) : ClosesType t := by
  obtain ⟨c, rest, hc, rfl⟩ := h
  exact .lone hc rest

theorem ClosesParameter.starts (h : ClosesParameter t) :
    ∃ c rest, c ∈ ",)".toList ∧ Starts t .mark [] [c] rest := by
  obtain ⟨c, rest, hc, rfl⟩ := h
  have hall : (",)".toList.all fun c => loneMarks.contains c) = true := by decide
  exact ⟨c, rest, hc, .lone blank_nil (by simpa using List.all_eq_true.1 hall c hc) rest⟩

theorem ClosesParameter.typed (h : ClosesParameter t) (type : Option TypeExpr) :
    ∃ c rest, c ∈ ":),".toList ∧ typeText type ++ t = c :: rest := by
  cases type with
  | none =>
    obtain ⟨c, rest, hc, rfl⟩ := h
    have hall : (",)".toList.all fun c => ":),".toList.contains c) = true := by decide
    exact ⟨c, rest, by simpa using List.all_eq_true.1 hall c hc, rfl⟩
  | some type => exact ⟨':', _, by decide, rfl⟩

/-- The mark of an optional parameter, if it has one. -/
theorem optionMark (optional : Bool) {d : Char} {more : Text} (hd : d ∈ ":),".toList) :
    Reads optionMark ((if optional then ['?'] else []) ++ d :: more) (d :: more) fun b _ =>
      b = optional := by
  have hcases : d = ':' ∨ d = ')' ∨ d = ',' := by simpa using hd
  have hmark : d ∈ loneMarks ∧ LineEnd.isLineSpace d = false ∧ ":),".toList.contains d = true
      ∧ d ≠ '?' := by
    rcases hcases with rfl | rfl | rfl <;> decide
  obtain ⟨hlone, hwhite, hend, hquestion⟩ := hmark
  unfold Rules.optionMark
  cases optional with
  | false =>
    have hs : Starts (d :: more) .mark [] [d] more := .lone blank_nil hlone more
    refine get_bind hs fun cursor hrest _ => ?_
    refine accept_false_bind ⟨_, _, _, _, hs, by simp [hquestion]⟩ ?_
    exact pure rfl
  | true =>
    have hs : Starts ('?' :: d :: more) .mark [] ['?'] (d :: more) :=
      .before blank_nil (by decide) (mem_separators hd) more
    refine get_bind hs fun cursor hrest _ => ?_
    refine accept_true_bind hs (by simp) (by decide) fun _ _ => ?_
    rw [hrest, List.dropWhile_cons_of_neg (by simp [hwhite]), List.head?_cons, Option.any_some, hend]
    exact pure rfl

theorem lengths_decorators (behind : Text) (ds : List Printed.Decorator) :
    ds.length ≤ (decoratorTexts behind ds).length
      ∧ ∀ d ∈ ds, d.text.length ≤ (decoratorTexts behind ds).length := by
  obtain ⟨hcount, hds⟩ := lengths_flatMap (f := fun d : Printed.Decorator => d.text ++ behind)
    fun d (_ : d ∈ ds) => Nat.zero_lt_succ _
  refine ⟨hcount, fun d hd => Nat.le_trans ?_ (hds d hd)⟩
  rw [List.length_append]
  exact Nat.le_add_right _ _

theorem parameterName (hr : Ready r n) (i : Identifier) (hlead : Blank lead)
    (hafter : EndsPattern after) :
    Reads
      (Parse.withSource do
        if isKeyword "this" (← peek) && !isOneOfMarks [".", "[", "!"] (← ahead 1) then
          Parse.skip
          return true
        else r.restPattern)
      (lead ++ (i.text ++ after)) after fun a _ => a = (true, i.text) := by
  have hs : Starts (lead ++ (i.text ++ after)) .word lead i.text after := .name i hlead hafter.endsWord
  obtain ⟨c, rest, -, hs'⟩ := hafter.starts
  refine (withSource (Q := fun single _ => single = true) ?_ hs rfl).mono fun a _ h => Prod.ext h.2 h.1
  refine peek_bind hs fun line place => ahead_bind hs hs' fun line' place' => ?_
  rw [i.isKeyword (by simp [languageWords, reservedWords]), Bool.false_and, if_neg Bool.false_ne_true]
  exact restPattern hr i hlead hafter

theorem parameter_text (p : Printed.Parameter) (after : Text) :
    p.text ++ after = decoratorTexts [' '] p.decorators
      ++ (p.name.text ++ ((if p.optional then ['?'] else []) ++ (typeText p.type ++ after))) := by
  simp [Printed.Parameter.text]

theorem endsPattern_option (optional : Bool) {d : Char} (hd : d ∈ ":),".toList) (more : Text) :
    EndsPattern ((if optional then ['?'] else []) ++ d :: more) := by
  cases optional with
  | false =>
    have hall : (":),".toList.all fun d => ",):;".toList.contains d) = true := by decide
    exact .inl ⟨d, more, by simpa using List.all_eq_true.1 hall d hd, rfl⟩
  | true => exact .inr ⟨d, more, hd, rfl⟩

theorem startsDecorated_parameter (p : Printed.Parameter) (hlead : Blank lead)
    (hafter : ClosesParameter after) : StartsDecorated (lead ++ (p.text ++ after)) := by
  obtain ⟨d, more, hd, htyped⟩ := hafter.typed p.type
  rw [parameter_text, htyped]
  exact .decorators p.decorators hlead
    (.name p.name blank_nil (endsPattern_option p.optional hd more).endsWord)

theorem parameterType_bind {f : Option TypeSource → Parse β} {Q : β → Prop} (hr : Ready r n)
    (type : Option TypeExpr) (hlength : (typeText type).length ≤ n) (hafter : ClosesParameter after)
    (hf : Reads (f (type.map (·.pieces []))) after rest fun b _ => Q b) :
    Reads (do
        if ← acceptMark ":" then (some <$> ofAnnotation <$> Parse.typeSource r.type) >>= f
        else Pure.pure none >>= f)
      (typeText type ++ after) rest fun b _ => Q b := by
  cases type with
  | none =>
    obtain ⟨c, more, hc, hcloses⟩ := hafter.starts
    have hcolon : c ≠ ':' := by
      rintro rfl
      exact absurd hc (by decide)
    exact accept_false_bind ⟨_, _, _, _, hcloses, by simp [hcolon]⟩ hf
  | some t =>
    have hcolon : Starts (typeText (some t) ++ after) .mark [] [':'] (' ' :: (t.text ++ after)) :=
      .lone blank_nil (by decide) _
    have htype : t.text.length ≤ n := by
      have hwhole : (typeText (some t)).length = t.text.length + 2 := by simp [typeText]
      omega
    refine accept_true_bind hcolon (by simp) (by decide) fun _ _ => ?_
    refine (annotatedType (hr.type t htype) blank_space hafter.closesType).bind fun _ _ h => ?_
    obtain rfl := h
    exact hf

theorem initializer_none (hafter : ClosesParameter after) :
    Reads (r.initializer false) after after fun initial _ => initial = none := by
  obtain ⟨c, rest, hc, hcloses⟩ := hafter.starts
  have hequals : c ≠ '=' := by
    rintro rfl
    exact absurd hc (by decide)
  unfold Rules.initializer
  refine accept_false_bind ⟨_, _, _, _, hcloses, by simp [hequals]⟩ ?_
  exact pure rfl

theorem parameter (hr : Ready r n) (p : Printed.Parameter) (hlength : p.text.length ≤ n)
    (hlead : Blank lead) (hafter : ClosesParameter after) :
    Reads r.parameter (lead ++ (p.text ++ after)) after fun node _ => node = p.node := by
  obtain ⟨ds, i, optional, type⟩ := p
  have hpos : 0 < r.bound := Nat.zero_lt_of_lt hr.bound
  have hlengths : (decoratorTexts [' '] ds).length + (typeText type).length ≤ n := by
    have hwhole := congrArg List.length (parameter_text ⟨ds, i, optional, type⟩ [])
    simp only [List.append_nil, List.length_append] at hwhole
    omega
  obtain ⟨hcount, hds⟩ := lengths_decorators [' '] ds
  obtain ⟨d, more, hd, htyped⟩ := hafter.typed type
  have hpattern := endsPattern_option optional hd more
  have hname : Starts (i.text ++ ((if optional then ['?'] else []) ++ d :: more)) .word [] i.text _ :=
    .name i blank_nil hpattern.endsWord
  rw [parameter_text]
  dsimp only
  rw [htyped]
  unfold Rules.parameter
  refine (decorators hr ds (by omega) (fun e he => by have := hds e he; omega) hlead blank_space
    (List.cons_ne_nil ' ' []) hname).bind fun nodes _ hnodes => ?_
  have hlead : Blank (if ds = [] then lead else [' ']) := blank_behind ds hlead blank_space
  refine (skipParameterModifiers i hlead hpattern hpos).bind_still fun _ _ => ?_
  refine (parameterName hr i hlead hpattern).bind fun _ _ h => ?_
  obtain rfl := h
  refine (optionMark optional hd).bind fun _ _ h => ?_
  obtain rfl := h
  rw [← htyped]
  refine parameterType_bind (Q := fun node => node = _) hr type (by omega) hafter ?_
  simp only [Bool.true_or, if_true]
  refine (initializer_none hafter).bind fun _ _ h => pure ?_
  rw [h, hnodes]
  rfl

theorem parameters (hr : Ready r n) (ps : List Printed.Parameter) (hcount : ps.length ≤ n)
    (hlength : ∀ p ∈ ps, p.text.length ≤ n) (after : Text) :
    Reads r.parameters ('(' :: (listed (ps.map Printed.Parameter.text) ++ ')' :: after)) after
      fun nodes _ => nodes = ps.map Parameter.node := by
  have hopen : Starts ('(' :: (listed (ps.map Printed.Parameter.text) ++ ')' :: after)) .mark [] ['('] _ :=
    .lone blank_nil (by decide) _
  have hclose : Starts (')' :: after) .mark [] [')'] after := .lone blank_nil (by decide) after
  have hitems : ReadsItems r.parameter Printed.Parameter.text ')' (')' :: after) ps
      fun _ p a _ => a = p.node := by
    have hcloses {after' : Text} (h : after' = ')' :: after ∨ ∃ more, after' = ',' :: ' ' :: more) :
        ClosesParameter after' :=
      behind_item ⟨')', after, by decide, rfl⟩ (fun more => ⟨',', ' ' :: more, by decide, rfl⟩) h
    refine ⟨fun p hp lead hlead after' hafter => ?_, fun p _ lead hlead after' hafter => ?_⟩
    · exact parameter hr p (hlength p hp) (blank_lead hlead) (hcloses hafter)
    · exact (startsDecorated_parameter p (blank_lead hlead) (hcloses hafter)).startsMark (by decide)
  unfold Rules.parameters
  refine (mark (m := "(") hopen).bind fun _ _ _ => ?_
  exact (commaList hitems (.inl rfl) (by decide) hclose (Nat.lt_of_le_of_lt hcount hr.bound)).mono
    fun as _ h => eq_map_of_forall₂ h

end Reads

end NestClient.TypeScript
