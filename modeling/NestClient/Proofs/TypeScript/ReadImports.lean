import NestClient.Proofs.TypeScript.ReadParameters

/-! Written imports are read to their nodes. -/

namespace NestClient.TypeScript

open Printed

namespace Reads

open Parse Rules

variable {r : Rules} {n : Nat} {t lead after rest : Text}

/-! ## Ends -/

theorem starts_semicolon (rest : Text) : Starts (';' :: rest) .mark [] [';'] rest :=
  .lone blank_nil (by decide) rest

theorem stays_semicolon (rest : Text) : Stays (';' :: rest) :=
  stays_of_solid [] (by simp) (by decide) (by decide) (by decide)

theorem importEnd (rest : Text) : Reads r.importEnd (';' :: rest) rest fun _ _ => True := by
  have hs := starts_semicolon rest
  unfold Rules.importEnd
  refine lineEnds_bind hs (stays_semicolon rest _) (peek_bind hs fun line place => ?_)
  rw [if_neg (by simp)]
  exact (semicolon hs (stays_semicolon rest _)).mono fun _ _ _ => trivial

theorem moduleName (v : StringValue) (hlead : Blank lead) (rest : Text) :
    Reads moduleName (lead ++ (v.quoted ++ rest)) rest fun source _ => source = v.quoted := by
  have hs : Starts (lead ++ (v.quoted ++ rest)) .string lead v.quoted rest := .string v hlead rest
  unfold Rules.moduleName
  refine (expect hs (by simp) (by decide)).bind fun token _ h => pure ?_
  obtain ⟨⟨_, _, rfl⟩, -⟩ := h
  rfl

theorem anyWord {word : Text} (hs : Starts t .word lead word rest) :
    Reads (Parse.expect (·.kind = .word)) t rest fun token _ => token.text = word := by
  refine (expect hs (by simp) (by decide)).mono fun token _ h => ?_
  obtain ⟨⟨_, _, rfl⟩, -⟩ := h
  rfl

/-! ## Names in braces -/

/-- A text that ends one of the names in braces. -/
structure ClosesName (t : Text) : Prop where
  next : ∃ lead c rest, Starts t .mark lead [c] rest
  endsWord : EndsWord t

theorem ClosesName.comma (rest : Text) : ClosesName (',' :: rest) :=
  ⟨⟨_, _, _, .lone blank_nil (by decide) rest⟩, endsWord_cons rest (by decide)⟩

theorem ClosesName.brace (rest : Text) : ClosesName (' ' :: '}' :: rest) :=
  ⟨⟨_, _, _, .lone blank_space (by decide) rest⟩, endsWord_cons _ (by decide)⟩

theorem words_import : "typeof" ∈ languageWords ∧ "type" ∈ languageWords ∧ "default" ∈ languageWords := by
  simp [languageWords, reservedWords, contextualWords]

/-- A name in a module, behind no modifier. -/
theorem moduleMember {word : Text} (hs : Starts t .word lead word rest) :
    Reads moduleMember t rest fun token _ => ∃ line place, token = ⟨.word, lead, word, line, place⟩ :=
  (expect hs (by simp) (by decide)).mono fun _ _ h => h.1

theorem importSpecifier (m : Identifier × Option Identifier) (hlead : Blank lead)
    (hafter : ClosesName after) :
    Reads importSpecifier (lead ++ (nameText m ++ after)) after fun a _ =>
      a = (m.1.text, m.2.map (·.text)) := by
  obtain ⟨lead', c, rest, hcloses⟩ := hafter.next
  obtain ⟨name, other⟩ := m
  unfold Rules.importSpecifier
  cases other with
  | none =>
    have hs : Starts (lead ++ (nameText (name, none) ++ after)) .word lead name.text after :=
      .name name hlead hafter.endsWord
    refine peek_bind hs fun line place => ahead_bind hs hcloses fun line' place' => ?_
    simp only [name.isKeyword, words_import, Bool.false_and, Bool.or_self, Bool.false_eq_true, if_false]
    refine (moduleMember hs).bind fun _ _ h => ?_
    obtain ⟨line, place, rfl⟩ := h
    refine accept_false_bind ⟨_, _, _, _, hcloses, fun _ _ => rfl⟩ ?_
    simp only [name.isKeyword, words_import, Bool.false_eq_true, if_false]
    exact pure rfl
  | some other =>
    have hother : Starts (" ".toList ++ (other.text ++ after)) .word " ".toList other.text after :=
      .name other blank_space hafter.endsWord
    have has : Starts (" ".toList ++ ("as".toList ++ ' ' :: (other.text ++ after))) .word " ".toList
        "as".toList (' ' :: (other.text ++ after)) :=
      .keyword blank_space (by decide) (endsWord_cons _ (by decide))
    have hs : Starts (lead ++ (name.text ++ (" ".toList ++ ("as".toList ++ ' ' :: (other.text ++ after)))))
        .word lead name.text _ := .name name hlead (endsWord_space _)
    have htext : nameText (name, some other) ++ after
        = name.text ++ (" ".toList ++ ("as".toList ++ ' ' :: (other.text ++ after))) := by
      simp [nameText]
    rw [htext]
    refine peek_bind hs fun line place => ahead_bind hs has fun line' place' => ?_
    simp only [name.isKeyword, words_import, Bool.false_and, Bool.or_self, Bool.false_eq_true, if_false]
    refine (moduleMember hs).bind fun _ _ h => ?_
    obtain ⟨line, place, rfl⟩ := h
    refine accept_true_bind has (by simp) (by decide) fun _ _ => ?_
    rw [if_pos rfl]
    refine (anyWord hother).bind fun token _ h => pure ?_
    rw [h]
    rfl

theorem starts_nameText (m : Identifier × Option Identifier) (hlead : Blank lead)
    (hafter : ClosesName after) :
    ∃ rest, Starts (lead ++ (nameText m ++ after)) .word lead m.1.text rest := by
  obtain ⟨name, other⟩ := m
  cases other with
  | none => exact ⟨after, .name name hlead hafter.endsWord⟩
  | some other =>
    have hs : Starts (lead ++ (name.text ++ (" as ".toList ++ (other.text ++ after)))) .word lead name.text
        _ := .name name hlead (endsWord_cons _ (by decide))
    exact ⟨_, by simpa [nameText] using hs⟩

/-- Behind an opening brace a name or the closing brace comes next. -/
theorem next_names (ns : List (Identifier × Option Identifier)) (rest : Text) {m : String}
    (hm : m.toList ≠ ['}']) :
    Next (isMark m) (" ".toList ++ (listed (ns.map nameText) ++ ' ' :: '}' :: rest)) false := by
  cases ns with
  | nil =>
    have hclose : Starts (' ' :: '}' :: rest) .mark " ".toList ['}'] rest :=
      .lone blank_space (by decide) rest
    exact ⟨_, _, _, _, hclose.behind blank_space, by simpa using hm.symm⟩
  | cons m ns =>
    obtain ⟨after, htext, hafter⟩ := listed_cons_append (nameText m) (ns.map nameText) (' ' :: '}' :: rest)
    have hcloses : ClosesName after := behind_item (.brace rest) (fun more => .comma _) hafter
    obtain ⟨_, hs⟩ := starts_nameText m blank_space hcloses
    rw [List.map_cons, htext]
    exact ⟨_, _, _, _, hs, fun _ _ => rfl⟩

theorem nameList (ns : List (Identifier × Option Identifier)) (hbound : ns.length < r.bound)
    (hlead : Blank lead) (rest : Text) :
    Reads (r.nameList Rules.importSpecifier)
      (lead ++ ('{' :: ' ' :: (listed (ns.map nameText) ++ ' ' :: '}' :: rest))) rest
      fun as _ => as = ns.map fun m => (m.1.text, m.2.map (·.text)) := by
  have hopen : Starts (lead ++ ('{' :: ' ' :: (listed (ns.map nameText) ++ ' ' :: '}' :: rest))) .mark
      lead ['{'] (" ".toList ++ (listed (ns.map nameText) ++ ' ' :: '}' :: rest)) :=
    .before hlead (by decide) (by decide) _
  have hclose : Starts (' ' :: '}' :: rest) .mark " ".toList ['}'] rest :=
    .lone blank_space (by decide) rest
  have hcloses {after : Text} (h : after = ' ' :: '}' :: rest ∨ ∃ more, after = ',' :: ' ' :: more) :
      ClosesName after := behind_item (.brace rest) (fun more => .comma _) h
  have hitems : ReadsItems Rules.importSpecifier nameText '}' (' ' :: '}' :: rest) ns
      fun _ m a _ => a = (m.1.text, m.2.map (·.text)) := by
    refine ⟨fun m _ lead hlead after hafter => ?_, fun m _ lead hlead after hafter => ?_⟩
    · exact importSpecifier m (blank_lead hlead) (hcloses hafter)
    · obtain ⟨_, hs⟩ := starts_nameText m (blank_lead hlead) (hcloses hafter)
      exact ⟨_, _, _, _, hs, fun _ _ => rfl⟩
  unfold Rules.nameList
  refine (mark (m := "\x7b") hopen).bind fun _ _ _ => ?_
  refine accept_false_bind (next_names ns rest (by decide)) ?_
  rw [if_neg Bool.false_ne_true]
  exact (commaList hitems (.inr rfl) (by decide) hclose hbound).mono fun as _ h => eq_map_of_forall₂ h

/-! ## What an import takes -/

theorem starts_star (hlead : Blank lead) (rest : Text) :
    Starts (lead ++ '*' :: ' ' :: rest) .mark lead ['*'] (' ' :: rest) :=
  .before hlead (by decide) (by decide) rest

theorem starts_as (rest : Text) :
    Starts (" ".toList ++ ("as".toList ++ ' ' :: rest)) .word " ".toList "as".toList (' ' :: rest) :=
  .keyword blank_space (by decide) (endsWord_cons _ (by decide))

theorem namespaceImport (space : Identifier) (hlead : Blank lead) (hafter : EndsWord after) :
    Reads namespaceImport
      (lead ++ '*' :: ' ' :: ("as".toList ++ ' ' :: (space.text ++ after))) after fun a _ =>
      a = space.text := by
  have hname : Starts (" ".toList ++ (space.text ++ after)) .word " ".toList space.text after :=
    .name space blank_space hafter
  unfold Rules.namespaceImport
  refine (mark (m := "*") (starts_star hlead _)).bind fun _ _ _ => ?_
  refine (keyword (w := "as") (starts_as _)).bind fun _ _ _ => ?_
  refine (anyWord hname).bind fun token _ h => pure ?_
  rw [h]

/-- What stands before the `from` of an import. -/
def takenText : Option Identifier → Taken → Text
  | none, taken => taken.text
  | some name, .nothing => name.text
  | some name, taken => name.text ++ ',' :: ' ' :: taken.text

/-- An import without the module it is from. -/
def takenNode (own : Option Identifier) (taken : Taken) : ImportNode :=
  { named := taken.named.map fun m => (m.1.text, m.2.map (·.text))
    namespaceName := taken.space?.map (·.text)
    defaultName := own.map (·.text) }

theorem text_names (ns : List (Identifier × Option Identifier)) (after : Text) :
    (Taken.names ns).text ++ after = '{' :: ' ' :: (listed (ns.map nameText) ++ ' ' :: '}' :: after) := by
  show "\x7b ".toList ++ listed (ns.map nameText) ++ " \x7d".toList ++ after = _
  simp

theorem text_all (space : Identifier) (after : Text) :
    (Taken.all space).text ++ after = '*' :: ' ' :: ("as".toList ++ ' ' :: (space.text ++ after)) :=
  rfl

theorem starts_names (ns : List (Identifier × Option Identifier)) (hlead : Blank lead) (after : Text) :
    Starts (lead ++ ((Taken.names ns).text ++ after)) .mark lead ['{']
      (' ' :: (listed (ns.map nameText) ++ ' ' :: '}' :: after)) := by
  rw [text_names]
  exact .before hlead (by decide) (by decide) _

theorem starts_all (space : Identifier) (hlead : Blank lead) (after : Text) :
    Starts (lead ++ ((Taken.all space).text ++ after)) .mark lead ['*']
      (' ' :: ("as".toList ++ ' ' :: (space.text ++ after))) := by
  rw [text_all]
  exact starts_star hlead _

theorem importClause_taken {taken : Taken} (hsome : taken ≠ .nothing)
    (hbound : taken.named.length < r.bound) (hlead : Blank lead) (hends : EndsWord after) :
    Reads r.importClause (lead ++ (taken.text ++ after)) after fun i _ => i = takenNode none taken := by
  unfold Rules.importClause
  cases taken with
  | nothing => exact absurd rfl hsome
  | names ns =>
    have hs := starts_names ns hlead after
    refine peek_bind hs fun line place => ?_
    rw [if_neg (by simp)]
    refine peek_bind hs fun line place => ?_
    rw [if_pos (by simp), text_names]
    refine (nameList ns hbound hlead after).bind fun _ _ h => pure ?_
    rw [h]
    rfl
  | all space =>
    refine peek_bind (starts_all space hlead after) fun line place => ?_
    rw [if_pos (by simp), text_all]
    refine (namespaceImport space hlead hends).bind fun _ _ h => pure ?_
    rw [h]
    rfl

/-- Behind the default export stands a comma, or nothing else is taken. -/
theorem takenText_some (own : Identifier) (taken : Taken) (hends : EndsWord after) :
    ∃ behind, takenText (some own) taken ++ after = own.text ++ behind ∧ EndsWord behind
      ∧ (taken = .nothing ∧ behind = after
        ∨ taken ≠ .nothing ∧ behind = ',' :: (" ".toList ++ (taken.text ++ after))) := by
  cases taken with
  | nothing => exact ⟨after, rfl, hends, .inl ⟨rfl, rfl⟩⟩
  | names ns => exact ⟨_, List.append_assoc _ _ _, endsWord_cons _ (by decide), .inr ⟨nofun, rfl⟩⟩
  | all space => exact ⟨_, List.append_assoc _ _ _, endsWord_cons _ (by decide), .inr ⟨nofun, rfl⟩⟩

theorem importClause_default (own : Identifier) (taken : Taken) (hbound : taken.named.length < r.bound)
    (hlead : Blank lead) (hafter : Starts after .word " ".toList "from".toList rest)
    (hends : EndsWord after) :
    Reads r.importClause (lead ++ (takenText (some own) taken ++ after)) after fun i _ =>
      i = takenNode (some own) taken := by
  obtain ⟨behind, htext, hbehind, hcases⟩ := takenText_some own taken hends
  have hname : Starts (lead ++ (own.text ++ behind)) .word lead own.text behind := .name own hlead hbehind
  rw [htext]
  unfold Rules.importClause
  refine peek_bind hname fun line place => ?_
  rw [if_neg (by simp)]
  refine peek_bind hname fun line place => ?_
  rw [if_neg (by simp)]
  refine (anyWord hname).bind fun token _ hown => ?_
  obtain ⟨rfl, rfl⟩ | ⟨hsome, rfl⟩ := hcases
  · refine accept_false_bind ⟨_, _, _, _, hafter, fun _ _ => rfl⟩ ?_
    refine pure ?_
    rw [hown]
    rfl
  · have hcomma : Starts (',' :: (" ".toList ++ (taken.text ++ after))) .mark [] [','] _ :=
      .lone blank_nil (by decide) _
    refine accept_true_bind hcomma (by simp) (by decide) fun _ _ => ?_
    rw [if_pos rfl]
    cases taken with
    | nothing => exact absurd rfl hsome
    | names ns =>
      refine peek_bind (starts_names ns blank_space after) fun line place => ?_
      rw [if_neg (by simp), text_names]
      refine (nameList ns hbound blank_space after).bind fun _ _ h => pure ?_
      rw [h, hown]
      rfl
    | all space =>
      refine peek_bind (starts_all space blank_space after) fun line place => ?_
      rw [if_pos (by simp), text_all]
      refine (namespaceImport space blank_space hends).bind fun _ _ h => pure ?_
      rw [h, hown]
      rfl

theorem starts_takenText (own : Option Identifier) (taken : Taken) (hsome : own = none → taken ≠ .nothing)
    (hlead : Blank lead) (hafter : Starts after .word " ".toList "from".toList rest)
    (hends : EndsWord after) :
    ∃ kind word behind, Starts (lead ++ (takenText own taken ++ after)) kind lead word behind
      ∧ Next (isMark "=") behind false
      ∧ ((∃ name : Identifier, kind = .word ∧ word = name.text)
        ∨ kind = .mark ∧ (word = ['{'] ∨ word = ['*'])) := by
  cases own with
  | none =>
    cases taken with
    | nothing => exact absurd rfl (hsome rfl)
    | names ns =>
      exact ⟨.mark, ['{'], _, starts_names ns hlead after, next_names ns after (by decide),
        .inr ⟨rfl, .inl rfl⟩⟩
    | all space =>
      exact ⟨.mark, ['*'], _, starts_all space hlead after, ⟨_, _, _, _, starts_as _, fun _ _ => rfl⟩,
        .inr ⟨rfl, .inr rfl⟩⟩
  | some own =>
    obtain ⟨behind, htext, hbehind, hcases⟩ := takenText_some own taken hends
    have hnext : Next (isMark "=") behind false := by
      obtain ⟨-, rfl⟩ | ⟨-, rfl⟩ := hcases
      · exact ⟨_, _, _, _, hafter, fun _ _ => rfl⟩
      · exact ⟨_, _, _, _, .lone blank_nil (by decide) _, by simp⟩
    rw [htext]
    exact ⟨.word, own.text, behind, .name own hlead hbehind, hnext, .inl ⟨own, rfl, rfl⟩⟩

/-! ## Imports -/

/-- What stands behind the clause of an import. -/
def fromText (v : StringValue) (rest : Text) : Text :=
  " from ".toList ++ (v.quoted ++ ';' :: rest)

theorem starts_from (v : StringValue) (rest : Text) :
    Starts (fromText v rest) .word " ".toList "from".toList (" ".toList ++ (v.quoted ++ ';' :: rest)) := by
  have hs : Starts (" ".toList ++ ("from".toList ++ (" ".toList ++ (v.quoted ++ ';' :: rest)))) .word
      " ".toList "from".toList (" ".toList ++ (v.quoted ++ ';' :: rest)) :=
    .keyword blank_space (by decide) (endsWord_cons _ (by decide))
  exact hs

theorem endsWord_from (v : StringValue) (rest : Text) : EndsWord (fromText v rest) :=
  endsWord_cons _ (by decide)

theorem importStatement (i : Printed.Import) (hsome : i.defaultName = none → i.taken ≠ .nothing)
    (hbound : i.taken.named.length < r.bound) (rest : Text) :
    Reads r.importStatement
      (" ".toList ++ (takenText i.defaultName i.taken ++ fromText i.specifier rest)) rest fun s _ =>
      s = .importing i.node := by
  have hfrom := starts_from i.specifier rest
  have hends := endsWord_from i.specifier rest
  obtain ⟨kind, word, behind, hs, ⟨_, _, _, _, hs', hnone⟩, hkind⟩ :=
    starts_takenText i.defaultName i.taken hsome blank_space hfrom hends
  have hbody : Reads (r.importBody false)
      (" ".toList ++ (takenText i.defaultName i.taken ++ fromText i.specifier rest)) rest fun s _ =>
      s = .importing i.node := by
    unfold Rules.importBody
    refine peek_bind hs fun line place => ahead_bind hs hs' fun line' place' => ?_
    rw [if_neg (by simp [hnone])]
    have hclause : Reads r.importClause
        (" ".toList ++ (takenText i.defaultName i.taken ++ fromText i.specifier rest))
        (fromText i.specifier rest) fun node _ => node = takenNode i.defaultName i.taken := by
      cases hown : i.defaultName with
      | none => exact importClause_taken (hsome hown) hbound blank_space hends
      | some own => exact importClause_default own i.taken hbound blank_space hfrom hends
    refine hclause.bind fun _ _ h => ?_
    obtain rfl := h
    refine (keyword (w := "from") hfrom).bind fun _ _ _ => ?_
    refine (moduleName i.specifier blank_space _).bind fun source _ h => ?_
    refine (importEnd rest).bind fun _ _ _ => pure ?_
    rw [h]
    rfl
  have hmodified (line place : Nat) : isKeyword "typeof" ⟨kind, " ".toList, word, line, place⟩ = false
      ∧ isKeyword "type" ⟨kind, " ".toList, word, line, place⟩ = false ∧ kind ≠ .string := by
    obtain ⟨name, rfl, rfl⟩ | ⟨rfl, -⟩ := hkind
    · exact ⟨name.isKeyword words_import.1, name.isKeyword words_import.2.1, by decide⟩
    · exact ⟨rfl, rfl, by decide⟩
  unfold Rules.importStatement
  refine peek_bind hs fun line place => ahead_bind hs hs' fun line' place' => ?_
  obtain ⟨htypeof, htype, hkind⟩ := hmodified line place
  simp only [htypeof, htype, Bool.false_and, Bool.or_self, Bool.false_eq_true, if_false]
  refine peek_bind hs fun line place => ?_
  rw [if_neg hkind]
  exact hbody

theorem importStatement_bare (v : StringValue) (rest : Text) :
    Reads r.importStatement (" ".toList ++ (v.quoted ++ ';' :: rest)) rest fun s _ =>
      s = .importing { specifier := v.quoted } := by
  have hs : Starts (" ".toList ++ (v.quoted ++ ';' :: rest)) .string " ".toList v.quoted (';' :: rest) :=
    .string v blank_space _
  unfold Rules.importStatement
  refine peek_bind hs fun line place => ahead_bind hs (starts_semicolon rest) fun line' place' => ?_
  simp only [isKeyword_string, Bool.false_and, Bool.or_self, Bool.false_eq_true, if_false]
  refine peek_bind hs fun line place => ?_
  rw [if_pos rfl]
  refine (moduleName v blank_space _).bind fun source _ h => ?_
  refine (importEnd rest).bind fun _ _ _ => pure ?_
  rw [h]

theorem clause_eq (v : StringValue) (own : Option Identifier) (taken : Taken)
    (hsome : own = none → taken ≠ .nothing) :
    Import.clause ⟨v, own, taken⟩ = takenText own taken ++ " from ".toList := by
  cases own with
  | none =>
    cases taken with
    | nothing => exact absurd rfl (hsome rfl)
    | names ns => rfl
    | all space => rfl
  | some own =>
    cases taken with
    | nothing => rfl
    | names ns =>
      show own.text ++ ", ".toList ++ (Taken.names ns).text ++ " from ".toList = _
      simp [takenText]
    | all space =>
      show own.text ++ ", ".toList ++ (Taken.all space).text ++ " from ".toList = _
      simp [takenText]

theorem import_text (i : Printed.Import) (rest : Text) :
    i.text ++ rest = "import".toList ++
      (" ".toList ++ (i.clause ++ (i.specifier.quoted ++ ';' :: '\n' :: rest))) := by
  show "import ".toList ++ i.clause ++ i.specifier.quoted ++ ";\n".toList ++ rest = _
  simp only [List.append_assoc]
  rfl

theorem starts_import (i : Printed.Import) (hlead : Blank lead) (rest : Text) :
    Starts (lead ++ (i.text ++ rest)) .word lead "import".toList
      (" ".toList ++ (i.clause ++ (i.specifier.quoted ++ ';' :: '\n' :: rest))) := by
  rw [import_text]
  exact .keyword hlead (by decide) (endsWord_space _)

theorem statement_import (i : Printed.Import) (hbound : i.taken.named.length < r.bound)
    (hlead : Blank lead) (rest : Text) :
    Reads r.statementRule (lead ++ (i.text ++ rest)) ('\n' :: rest) fun s _ => s = .importing i.node := by
  have hstatement : ∃ behind kind word after, i.text ++ rest = "import".toList ++ behind
      ∧ Starts behind kind " ".toList word after
      ∧ Reads r.importStatement behind ('\n' :: rest) (fun s _ => s = .importing i.node)
      ∧ ∀ line place, isOneOfMarks ["(", ".", "?.", "<"] ⟨kind, " ".toList, word, line, place⟩ = false := by
    obtain ⟨v, own, taken⟩ := i
    by_cases hbare : own = none ∧ taken = .nothing
    · obtain ⟨rfl, rfl⟩ := hbare
      have htext : Import.text ⟨v, none, .nothing⟩ ++ rest
          = "import".toList ++ (" ".toList ++ (v.quoted ++ ';' :: '\n' :: rest)) :=
        import_text ⟨v, none, .nothing⟩ rest
      exact ⟨_, _, _, _, htext, .string v blank_space _, importStatement_bare v _, by simp⟩
    · have hsome : own = none → taken ≠ .nothing := fun h h' => hbare ⟨h, h'⟩
      have htext : Import.text ⟨v, own, taken⟩ ++ rest = "import".toList ++
          (" ".toList ++ (takenText own taken ++ fromText v ('\n' :: rest))) := by
        rw [import_text, clause_eq v own taken hsome, List.append_assoc]
        rfl
      obtain ⟨kind, word, after, hs, -, hkind⟩ := starts_takenText own taken hsome blank_space
        (starts_from v ('\n' :: rest)) (endsWord_from v _)
      refine ⟨_, kind, word, after, htext, hs, importStatement ⟨v, own, taken⟩ hsome hbound _, ?_⟩
      obtain ⟨name, rfl, rfl⟩ | ⟨rfl, rfl | rfl⟩ := hkind <;> simp
  obtain ⟨behind, kind, word, after, htext, hnext, hread, hnone⟩ := hstatement
  have hends : EndsWord behind := by
    rw [hnext.text]
    exact endsWord_space _
  have hs : Starts (lead ++ ("import".toList ++ behind)) .word lead "import".toList behind :=
    .keyword hlead (by decide) hends
  rw [htext]
  unfold Rules.statementRule
  refine peek_bind hs fun line place => ahead_bind hs hnext fun line' place' => ?_
  rw [if_neg (by simp)]
  refine accept_false_bind ⟨_, _, _, _, hs, fun _ _ => rfl⟩ ?_
  rw [if_neg Bool.false_ne_true, if_neg (by simp), if_pos (by rw [hnone]; simp)]
  exact (skip hs (by decide)).bind fun _ _ _ => hread

end Reads

end NestClient.TypeScript
