import NestClient.Proofs.TypeScript.ReadParameters

/-! Written methods and classes are read to their nodes, apart from the lines they stand on. -/

namespace NestClient.TypeScript

open Printed

namespace Reads

open Parse Rules

variable {r : Rules} {n : Nat} {e : Ending} {t lead after rest : Text}

/-! ## Signatures -/

theorem typeParameters (h : Next (startsMark '<') t false) :
    Reads r.typeParameters t t fun _ leaves => leaves = [] ∧ True := by
  unfold Rules.typeParameters
  refine acceptCut_false_bind h ?_
  exact pure ⟨rfl, trivial⟩

/-- The body of a method, with the blank before it. -/
def bodyText : Text := " \x7b\x7d".toList

/-- A method from its parameters on, up to its body. -/
def signatureText (ps : List Printed.Parameter) (type : Option TypeExpr) : Text :=
  '(' :: (listed (ps.map Printed.Parameter.text) ++ ')' :: typeText type)

theorem starts_signature (ps : List Printed.Parameter) (type : Option TypeExpr) (rest : Text) :
    ∃ more, Starts (signatureText ps type ++ rest) .mark [] ['('] more :=
  ⟨_, .lone blank_nil (by decide) _⟩

theorem signature (hr : Ready r n) (ps : List Printed.Parameter) (type : Option TypeExpr)
    (hcount : ps.length ≤ n) (hlength : ∀ p ∈ ps, p.text.length ≤ n)
    (htype : ∀ t, type = some t → t.text.length ≤ n) (rest : Text) :
    Reads (r.signature e) (signatureText ps type ++ (bodyText ++ rest)) (bodyText ++ rest) fun a _ =>
      a = (ps.map Parameter.node, type.map (·.pieces [])) := by
  obtain ⟨more, hopen⟩ := starts_signature ps type (bodyText ++ rest)
  have htext : signatureText ps type ++ (bodyText ++ rest)
      = '(' :: (listed (ps.map Printed.Parameter.text) ++ ')' :: (typeText type ++ (bodyText ++ rest))) := by
    simp [signatureText]
  unfold Rules.signature
  refine (typeParameters ⟨_, _, _, _, hopen, by simp⟩).bind_still fun _ _ => ?_
  rw [htext]
  refine (parameters hr ps hcount hlength _).bind fun nodes _ hnodes => ?_
  refine (returnType? (fun t ht => hr.type t (htype t ht)) rest).bind fun source _ hsource => pure ?_
  rw [hnodes, hsource]

theorem block (hbound : 0 < r.bound) (rest : Text) :
    Reads r.block (bodyText ++ rest) rest fun _ _ => True := by
  have hopen : Starts (bodyText ++ rest) .mark " ".toList ['{'] ('}' :: rest) :=
    .before blank_space (by decide) (by decide) rest
  have hclose : Starts ('}' :: rest) .mark [] ['}'] rest := .lone blank_nil (by decide) rest
  unfold Rules.block
  refine (mark (m := "\x7b") hopen).bind fun _ _ _ => ?_
  refine (discard (manyUntil (.stop ⟨_, _, _, _, hclose, by simp⟩) hbound)).bind fun _ _ _ => ?_
  exact (mark (m := "\x7d") hclose).mono fun _ _ _ => trivial

/-! ## Names of members -/

theorem words_memberSlots (decorated : Bool) :
    ∀ slots ∈ (methodSlots :: (if decorated then [] else [abstractSlots])) ++ fieldSlots,
      ∀ s ∈ slots.flatten, s = "*" ∨ s ∈ languageWords := by
  cases decorated <;> decide

/-- An identifier is the name itself, not a modifier before it. -/
theorem modifiers (i : Identifier) {slots fields : List Slots} {marks : List Char} {never : List String}
    (hslots : ∀ s ∈ slots ++ fields, ∀ w ∈ s.flatten, w = "*" ∨ w ∈ languageWords)
    (hs : Starts t .word lead i.text rest) (hbound : 0 < r.bound) :
    Reads (r.modifiers slots fields marks never) t t fun words leaves => leaves = [] ∧ words = [] := by
  have hnone : ((slots ++ fields).any fun s => fits s [i.text]) = false :=
    List.any_eq_false.2 fun s hs => by simp [fits_identifier i [] (hslots s hs)]
  unfold Rules.modifiers
  refine iterate_last hbound ?_
  refine peek_bind hs fun line place => ?_
  simp only [List.nil_append, hnone, Bool.and_false, Bool.false_eq_true, if_false]
  exact pure ⟨rfl, rfl, trivial⟩

theorem propertyName (i : Identifier) (hlead : Blank lead) (hafter : EndsWord after) :
    Reads (Parse.withSource r.propertyName) (lead ++ (i.text ++ after)) after fun a _ => a.2 = i.text := by
  have hs : Starts (lead ++ (i.text ++ after)) .word lead i.text after := .name i hlead hafter
  have hname : Reads r.propertyName (lead ++ (i.text ++ after)) after fun _ _ => True := by
    unfold Rules.propertyName
    refine peek_bind hs fun line place => ?_
    rw [if_neg (by simp)]
    exact (skip hs (by decide)).mono fun _ _ _ => trivial
  exact (withSource hname hs rfl).mono fun _ _ h => h.1

/-! ## Methods -/

theorem methodRest (hr : Ready r n) (decorated : Bool) (m : Printed.Method) (line : Nat)
    (hcount : m.parameters.length ≤ n) (hlength : ∀ p ∈ m.parameters, p.text.length ≤ n)
    (htype : ∀ t, m.returnType = some t → t.text.length ≤ n) (hrest : Next (isMark ";") rest false) :
    Reads (r.methodRest decorated [] m.name.text line)
      (signatureText m.parameters m.returnType ++ (bodyText ++ rest)) rest fun member _ =>
        member = .method { m.node with line } := by
  have hopen : Starts (bodyText ++ rest) .mark " ".toList ['{'] ('}' :: rest) :=
    .before blank_space (by decide) (by decide) rest
  have hstays : Stays (bodyText ++ rest) :=
    stays_of_solid " ".toList (by simp) (by decide) (by decide) (by decide)
  unfold Rules.methodRest
  refine (signature hr m.parameters m.returnType hcount hlength htype rest).bind fun _ _ h => ?_
  obtain rfl := h
  have hfits : fits methodSlots [] = true := rfl
  refine peek_bind hopen fun line' place => lineEnds_bind hopen (hstays _) ?_
  rw [hfits, if_pos (by simp)]
  refine (block (Nat.zero_lt_of_lt hr.bound) rest).bind fun _ _ _ => ?_
  refine (discard (accept_false hrest)).bind fun _ _ _ => ?_
  exact pure rfl

theorem memberRule (hr : Ready r n) (decorated : Bool) (m : Printed.Method) (hlead : Blank lead)
    (hcount : m.parameters.length ≤ n) (hlength : ∀ p ∈ m.parameters, p.text.length ≤ n)
    (htype : ∀ t, m.returnType = some t → t.text.length ≤ n) (hrest : Next (isMark ";") rest false) :
    Reads (r.memberRule decorated)
      (lead ++ (m.name.text ++ (signatureText m.parameters m.returnType ++ (bodyText ++ rest)))) rest
      fun member _ => ∃ line, member = .method { m.node with line } := by
  obtain ⟨more, hopen⟩ := starts_signature m.parameters m.returnType (bodyText ++ rest)
  have hends : EndsWord (signatureText m.parameters m.returnType ++ (bodyText ++ rest)) :=
    endsWord_cons _ (by decide)
  have hstays : Stays (signatureText m.parameters m.returnType ++ (bodyText ++ rest)) :=
    stays_of_solid [] (by simp) (by decide) (by decide) (by decide)
  have hname : Starts
      (lead ++ (m.name.text ++ (signatureText m.parameters m.returnType ++ (bodyText ++ rest)))) .word
      lead m.name.text _ := .name m.name hlead hends
  unfold Rules.memberRule
  refine peek_bind hname fun line place => peek_bind hname fun line' place' => ?_
  simp only [isOneOfMarks_word, Bool.false_and, Bool.false_eq_true, if_false]
  refine (modifiers m.name (words_memberSlots decorated) hname (Nat.zero_lt_of_lt hr.bound)).bind_still ?_
  rintro _ rfl
  refine peek_bind hname fun line' place' => ?_
  simp only [isMark_word, Bool.false_and, Bool.false_eq_true, if_false]
  refine (pure (Q := fun indexed leaves => leaves = [] ∧ indexed = none) ⟨rfl, rfl⟩).bind_still ?_
  rintro _ rfl
  simp only [Option.isSome_none, Bool.false_eq_true, if_false]
  refine (propertyName m.name hlead hends).bind fun (_, source) _ h => ?_
  obtain rfl : source = m.name.text := h
  refine lineEnds_bind hopen (hstays _) ?_
  rw [if_neg Bool.false_ne_true]
  refine acceptCut_false_bind ⟨_, _, _, _, hopen, by simp⟩ ?_
  rw [if_pos (by rfl)]
  refine (discard (acceptCut_false ⟨_, _, _, _, hopen, by simp⟩)).bind fun _ _ _ => ?_
  refine peek_bind hopen fun line' place' => lineEnds_bind hopen (hstays _) ?_
  rw [if_pos (by simp)]
  exact (methodRest hr decorated m line hcount hlength htype hrest).mono fun member _ h => ⟨line, h⟩

/-! ## Members -/

/-- A new line inside of a class. -/
def indent : Text := "\n  ".toList

theorem blank_indent : Blank indent := blank_line.append (blank_space.append blank_space)

theorem method_text (m : Printed.Method) (rest : Text) :
    '\n' :: (m.text ++ rest) = indent ++ (decoratorTexts indent m.decorators
      ++ (m.name.text ++ (signatureText m.parameters m.returnType ++ (bodyText ++ '\n' :: rest)))) := by
  unfold Printed.Method.text
  simp [signatureText, bodyText, indent]

theorem starts_name (m : Printed.Method) (rest : Text) :
    Starts (m.name.text ++ (signatureText m.parameters m.returnType ++ rest)) .word [] m.name.text
      (signatureText m.parameters m.returnType ++ rest) :=
  .name m.name blank_nil (endsWord_cons _ (by decide))

theorem startsDecorated_method (m : Printed.Method) (rest : Text) :
    StartsDecorated ('\n' :: (m.text ++ rest)) := by
  rw [method_text]
  exact .decorators m.decorators blank_indent (starts_name m _)

theorem lengths_method {m : Printed.Method} (hlength : m.text.length ≤ n) :
    (m.decorators.length ≤ n ∧ ∀ d ∈ m.decorators, d.text.length ≤ n)
      ∧ (m.parameters.length ≤ n ∧ ∀ p ∈ m.parameters, p.text.length ≤ n)
      ∧ ∀ t, m.returnType = some t → t.text.length ≤ n := by
  obtain ⟨hdecorators, hds⟩ := lengths_decorators indent m.decorators
  obtain ⟨hparameters, hps⟩ := lengths_listed (m.parameters.map Printed.Parameter.text)
  have hwhole := congrArg List.length (method_text m [])
  simp only [List.append_nil, signatureText, List.length_append, List.length_cons,
    List.length_map] at hwhole hparameters
  have hindent : indent.length = 3 := rfl
  refine ⟨⟨by omega, fun d hd => ?_⟩, ⟨by omega, fun p hp => ?_⟩, fun t ht => ?_⟩
  · have hd := hds d hd
    omega
  · have hp := hps _ (List.mem_map_of_mem hp)
    omega
  · have ht : (typeText m.returnType).length = t.text.length + 2 := by simp [ht, typeText]
    omega

theorem starts_decorators (ds : List Printed.Decorator) {behind word more : Text} (hlead : Blank lead)
    (hbehind : Blank behind) (hne : behind ≠ []) (hrest : Starts rest .word [] word more)
    (hmore : ∃ kind lead word rest, Starts more kind lead word rest) :
    ∃ kind first rest', Starts (lead ++ (decoratorTexts behind ds ++ rest)) kind lead first rest'
      ∧ (∃ kind lead word rest, Starts rest' kind lead word rest)
      ∧ (ds = [] ∧ kind = .word ∧ first = word ∨ kind = .mark ∧ first = ['@']) := by
  cases ds with
  | nil =>
    have hs := hrest.behind hlead
    rw [List.append_nil] at hs
    exact ⟨.word, word, more, hs, hmore, .inl ⟨rfl, rfl, rfl⟩⟩
  | cons d ds =>
    obtain ⟨i, args⟩ := d
    have hends := hbehind.endsWord hne (decoratorTexts behind ds ++ rest)
    rw [decoratorTexts_cons]
    generalize behind ++ (decoratorTexts behind ds ++ rest) = others at hends
    obtain ⟨after, htext, hafter⟩ : ∃ after, Printed.Decorator.text ⟨i, args⟩ ++ others
        = '@' :: (i.text ++ after) ∧ EndsWord after := by
      cases args with
      | none => exact ⟨others, by simp [Printed.Decorator.text], hends⟩
      | some vs =>
        exact ⟨'(' :: (listed (vs.map StringValue.quoted) ++ ')' :: others),
          by simp [Printed.Decorator.text], endsWord_cons _ (by decide)⟩
    rw [htext]
    exact ⟨.mark, ['@'], _, .lone hlead (by decide) _, ⟨_, _, _, _, .name i blank_nil hafter⟩,
      .inr ⟨rfl, rfl⟩⟩

/-- Blanks bring no comments. -/
theorem comments {kind : TokenKind} {word : Text} (hs : Starts t kind lead word rest) (hlead : Blank lead) :
    Reads Rules.comments t t fun ms leaves => leaves = [] ∧ ms = [] := by
  unfold Rules.comments
  refine peek_bind hs fun line place => pure ⟨rfl, ?_⟩
  dsimp only
  rw [commentCount_blank hlead, List.replicate_zero]

theorem memberDecorators (hr : Ready r n) (ds : List Printed.Decorator) (hcount : ds.length ≤ n)
    (hlength : ∀ d ∈ ds, d.text.length ≤ n) {behind word more : Text} (hlead : Blank lead)
    (hbehind : Blank behind) (hne : behind ≠ []) (hrest : Starts rest .word [] word more)
    (hmore : ∃ kind lead word rest, Starts more kind lead word rest) :
    Reads r.memberDecorators (lead ++ (decoratorTexts behind ds ++ rest))
      ((if ds = [] then lead else behind) ++ rest) fun nodes _ => nodes = ds.map fun d => (d.node, []) := by
  refine eachDecorator (fun d hd lead later hlead => ?_) (Nat.lt_of_le_of_lt hcount hr.bound) hlead hbehind
    hrest
  obtain ⟨kind, first, rest', hs, -⟩ := starts_decorators later hbehind hbehind hne hrest hmore
  refine (decorator hr d (hlength d hd) hlead (endsDecorator later hbehind hne hrest)).bind
    fun node _ hnode => (comments hs hbehind).bind_still fun _ hnone => pure ?_
  rw [hnode, hnone]

theorem decoratedMember (hr : Ready r n) (m : Printed.Method) (hlength : m.text.length ≤ n)
    (hrest : Next (isMark ";") ('\n' :: rest) false) :
    Reads r.decoratedMember ('\n' :: (m.text ++ rest)) ('\n' :: rest) fun ms _ =>
      ms.map Member.anywhere = m.members := by
  obtain ⟨⟨hdecorators, hds⟩, ⟨hcount, hps⟩, htype⟩ := lengths_method hlength
  obtain ⟨more, hopen⟩ := starts_signature m.parameters m.returnType (bodyText ++ '\n' :: rest)
  have hname := starts_name m (bodyText ++ '\n' :: rest)
  rw [method_text]
  unfold Rules.decoratedMember
  refine (memberDecorators hr m.decorators hdecorators hds blank_indent blank_indent
    (List.cons_ne_nil _ _) hname ⟨_, _, _, _, hopen⟩).bind fun nodes _ hnodes => ?_
  rw [ite_self, hnodes]
  refine (memberRule hr _ m blank_indent hcount hps htype hrest).bind fun _ _ h => ?_
  obtain ⟨line, rfl⟩ := h
  have hline : MethodNode.anywhere { m.node with line } = m.node := rfl
  refine pure ?_
  simp [Method.members, Member.anywhere, hline, List.flatMap_map, ← List.map_eq_flatMap]

theorem members (hr : Ready r n) (m : Printed.Method) (hlength : m.text.length ≤ n)
    (hrest : Next (isMark ";") ('\n' :: rest) false) :
    Reads r.members ('\n' :: (m.text ++ rest)) ('\n' :: rest) fun ms _ =>
      ms.map Member.anywhere = m.members := by
  obtain ⟨more, hopen⟩ := starts_signature m.parameters m.returnType (bodyText ++ '\n' :: rest)
  have hname := starts_name m (bodyText ++ '\n' :: rest)
  obtain ⟨kind, word, rest', hs, ⟨_, _, _, _, hs'⟩, hkind⟩ := starts_decorators m.decorators blank_indent
    blank_indent (List.cons_ne_nil _ _) hname ⟨_, _, _, _, hopen⟩
  have hnone : kind ≠ .endOfFile ∧ ∀ line place, isMark ";" ⟨kind, indent, word, line, place⟩ = false
      ∧ isKeyword "static" ⟨kind, indent, word, line, place⟩ = false := by
    obtain ⟨-, rfl, rfl⟩ | ⟨rfl, rfl⟩ := hkind
    · exact ⟨by decide, fun _ _ => ⟨rfl, m.name.isKeyword (by simp [languageWords, reservedWords])⟩⟩
    · exact ⟨by decide, fun _ _ => ⟨by simp, rfl⟩⟩
  obtain ⟨hkind, hnone⟩ := hnone
  have hmember := decoratedMember hr m hlength hrest
  rw [method_text] at hmember ⊢
  unfold Rules.members
  refine (comments hs blank_indent).bind_still ?_
  rintro _ rfl
  refine accept_false_bind ⟨_, _, _, _, hs, fun line place => (hnone line place).1⟩ ?_
  refine peek_bind hs fun line place => ?_
  have hinitializes : Reads
      (do
        Parse.skip
        return isMark "\x7b" (← peek) && !(← lineEnds .plain))
      (indent ++ (decoratorTexts indent m.decorators ++ (m.name.text
        ++ (signatureText m.parameters m.returnType ++ (bodyText ++ '\n' :: rest))))) rest'
      fun _ _ => True := by
    refine (skip hs hkind).bind fun _ _ _ => peek_bind hs' fun line place => ?_
    exact (lineEnds_still .plain).bind_still fun _ _ => pure trivial
  refine (look_still hinitializes).bind_still fun _ _ => ?_
  rw [(hnone line place).2, Bool.false_and, if_neg Bool.false_ne_true]
  exact hmember.bind fun ms _ hms => pure hms

/-! ## Classes -/

theorem starts_brace (rest : Text) : Starts ('\n' :: '}' :: rest) .mark "\n".toList ['}'] rest :=
  .lone blank_line (by decide) rest

/-- Methods on lines of their own are read up to the brace that closes the class. -/
theorem runMembers (hr : Ready r n) (ms : List Printed.Method) (hlength : ∀ m ∈ ms, m.text.length ≤ n)
    (rest : Text) :
    Run (isMark "\x7d") r.members ('\n' :: (ms.flatMap Printed.Method.text ++ '}' :: rest))
      (ms.map fun m as _ => as.map Member.anywhere = m.members) ('\n' :: '}' :: rest) := by
  have hsemicolon (ms : List Printed.Method) :
      Next (isMark ";") ('\n' :: (ms.flatMap Printed.Method.text ++ '}' :: rest)) false := by
    cases ms with
    | nil => exact ⟨_, _, _, _, starts_brace rest, by simp⟩
    | cons m ms =>
      rw [List.flatMap_cons, List.append_assoc]
      exact (startsDecorated_method m _).isMark (by decide)
  induction ms with
  | nil => exact .stop ⟨_, _, _, _, starts_brace rest, by simp⟩
  | cons m ms ih =>
    rw [List.flatMap_cons, List.append_assoc]
    exact .item ((startsDecorated_method m _).isMark (by decide))
      (members hr m (hlength m List.mem_cons_self) (hsemicolon ms))
      (ih fun m' hm => hlength m' (List.mem_cons_of_mem m hm))

theorem map_flatten_of_forall₂ {α β γ : Type} {f : β → List γ} {g : α → γ} {xs : List β}
    {groups : List (List α)} (h : List.Forall₂ (fun x as => as.map g = f x) xs groups) :
    groups.flatten.map g = xs.flatMap f := by
  induction h with
  | nil => rfl
  | cons hone _ ih => rw [List.flatten_cons, List.map_append, List.flatMap_cons, hone, ih]

/-- The body of a class, with the blank before it. -/
def classBodyText (ms : List Printed.Method) : Text :=
  " \x7b\n".toList ++ (ms.flatMap Printed.Method.text ++ ['}'])

theorem starts_classBody (ms : List Printed.Method) (rest : Text) :
    Starts (classBodyText ms ++ rest) .mark " ".toList ['{']
      ('\n' :: (ms.flatMap Printed.Method.text ++ '}' :: rest)) := by
  have hopen : Starts (" ".toList ++ '{' :: '\n' :: (ms.flatMap Printed.Method.text ++ '}' :: rest)) .mark
      " ".toList ['{'] ('\n' :: (ms.flatMap Printed.Method.text ++ '}' :: rest)) :=
    .before blank_space (by decide) (by decide) _
  simpa [classBodyText] using hopen

theorem classBody (hr : Ready r n) (ms : List Printed.Method) (hcount : ms.length ≤ n)
    (hlength : ∀ m ∈ ms, m.text.length ≤ n) (rest : Text) :
    Reads r.classBody (classBodyText ms ++ rest) rest fun members _ =>
      members.map Member.anywhere = ms.flatMap Printed.Method.members := by
  have hbound : (ms.map fun m as (_ : List Leaf) => List.map Member.anywhere as = Method.members m).length
      < r.bound := by
    rw [List.length_map]
    exact Nat.lt_of_le_of_lt hcount hr.bound
  unfold Rules.classBody
  refine (mark (m := "\x7b") (starts_classBody ms rest)).bind fun _ _ _ => ?_
  refine (manyUntil (runMembers hr ms hlength rest) hbound).bind fun groups _ heach => ?_
  refine (comments (starts_brace rest) blank_line).bind_still ?_
  rintro _ rfl
  refine (mark (m := "\x7d") (starts_brace rest)).bind fun _ _ _ => pure ?_
  rw [List.append_nil]
  exact map_flatten_of_forall₂ heach.forall₂_map

theorem classDeclaration (hr : Ready r n) (c : Printed.Class) (ds : List DecoratorNode) (line : Nat)
    (hcount : c.methods.length ≤ n) (hlength : ∀ m ∈ c.methods, m.text.length ≤ n) (hlead : Blank lead)
    (rest : Text) :
    Reads (r.classDeclaration ds line)
      (lead ++ ("class".toList ++ (' ' :: (c.name.text ++ (classBodyText c.methods ++ rest))))) rest
      fun node _ => node.anywhere = { c.node with decorators := ds } := by
  have hbody := starts_classBody c.methods rest
  have hends : EndsWord (classBodyText c.methods ++ rest) := endsWord_space _
  have hclass : Starts
      (lead ++ ("class".toList ++ (' ' :: (c.name.text ++ (classBodyText c.methods ++ rest))))) .word lead
      "class".toList _ := .keyword hlead (by decide) (endsWord_cons _ (by decide))
  have hrest : Reads r.classRest (classBodyText c.methods ++ rest) rest fun members _ =>
      members.map Member.anywhere = c.node.members := by
    unfold Rules.classRest
    refine (typeParameters ⟨_, _, _, _, hbody, by simp⟩).bind_still fun _ _ => ?_
    refine accept_false_bind ⟨_, _, _, _, hbody, fun _ _ => rfl⟩ ?_
    refine accept_false_bind ⟨_, _, _, _, hbody, fun _ _ => rfl⟩ ?_
    exact classBody hr c.methods hcount hlength rest
  unfold Rules.classDeclaration
  refine (discard (accept_false ⟨_, _, _, _, hclass, by simp⟩)).bind fun _ _ _ => ?_
  refine (keyword (w := "class") hclass).bind fun _ _ _ => ?_
  refine (declaredName c.name blank_space hends).bind fun _ _ h => ?_
  obtain rfl := h
  refine hrest.bind fun members _ h => pure ?_
  rw [ClassNode.anywhere, h]
  rfl

end Reads

end NestClient.TypeScript
