import Mathlib.Data.Bool.AllAny
import NestClient.Proofs.Client.FilePath
import NestClient.Proofs.Client.Pieces
import NestClient.Proofs.Client.WholeSegments

/-! Which texts of a controller disturb the comments of its client. Names never do, and neither does the
URL of a request, whatever its route, as long as no key ends with a backslash. A route or a type does that
holds the end of a comment, and so does a type with a comment of its own.

* `LiteralText`: the route inside the literal of its URL, with and without its placeholders.
* `closes_methodNotes`: the texts that close a method's comment.
* `comments_closed_iff`: the file of a controller is read as it is written unless one of these texts
  stands in it. -/

namespace NestClient

open TypeScript
open TypeScript.Reading (start)

namespace Client

/-! ## Names -/

section Names

variable {t : Text}

theorem isNameChar_of_mem_nameLine (h : Text.isNameLine t = true) {c : Char} (hc : c ∈ t) :
    isNameChar c = true ∨ c = '\n' := by
  rcases Text.isNameLine_iff.1 h with hname | ⟨name, rfl, hname⟩
  · exact .inl (isNameChar_of_mem_name hname hc)
  · rw [List.mem_append, List.mem_singleton] at hc
    exact hc.imp_left (isNameChar_of_mem_name hname)

theorem not_mem_nameLine (h : Text.isNameLine t = true) {c : Char} (hname : isNameChar c = false)
    (hline : c ≠ '\n') : c ∉ t := fun hc => by
  rcases isNameChar_of_mem_nameLine h hc with hchar | hchar
  · rw [hname] at hchar
    cases hchar
  · exact hline hchar

theorem beginsLiteral_of_not_mem (h : ∀ c ∈ ['/', '\x27', '"', '\x60'], c ∉ t) :
    ∀ c ∈ t, beginsLiteral c = false := fun c hc => by
  rw [beginsLiteral, List.contains_eq_mem, decide_eq_false_iff_not]
  exact fun hmem => h c hmem hc

theorem beginsLiteral_of_mem_nameLine (h : Text.isNameLine t = true) : ∀ c ∈ t, beginsLiteral c = false :=
  beginsLiteral_of_not_mem fun c hc => by
    have hplain : ∀ c ∈ ['/', '\x27', '"', '\x60'], isNameChar c = false ∧ c ≠ '\n' :=
      List.all_iff_forall_prop.1 (by decide)
    exact not_mem_nameLine h (hplain c hc).1 (hplain c hc).2

theorem quiet_nameLine (h : Text.isNameLine t = true) : Quiet t :=
  quiet_of_not_beginsLiteral (beginsLiteral_of_mem_nameLine h)

theorem not_closes_nameLine (h : Text.isNameLine t = true) : ¬Closes t := fun hcloses =>
  not_mem_nameLine h (by decide) (by decide) (star_mem_of_closes hcloses)

theorem not_mem_clientClassName (name : Name) {c : Char} (hwritten : isWrittenChar c = false)
    (hc : c ∉ "ApiService".toList) : c ∉ clientClassName name.text := fun hmem => by
  have hname := name.written c (mem_of_mem_clientClassName hc hmem)
  rw [hwritten] at hname
  cases hname

theorem quiet_clientClassName (name : Name) : Quiet (clientClassName name.text) :=
  quiet_of_not_beginsLiteral <| beginsLiteral_of_not_mem fun c hc => by
    have hplain : ∀ c ∈ ['/', '\x27', '"', '\x60'], isWrittenChar c = false ∧ c ∉ "ApiService".toList :=
      List.all_iff_forall_prop.1 (by decide)
    exact not_mem_clientClassName name (hplain c hc).1 (hplain c hc).2

end Names

/-! ## The URL -/

/-- A text inside a template literal: whatever could end the literal or begin a hole is escaped. -/
inductive LiteralText : Text → Prop
  | nil : LiteralText []
  | escaped {c : Char} {t : Text} (hc : c = '\\' ∨ c = '\x60' ∨ c = '$') (h : LiteralText t) :
    LiteralText ('\\' :: c :: t)
  | char {c : Char} {t : Text} (hb : c ≠ '\\') (hk : c ≠ '\x60') (hd : ¬(c = '$' ∧ t.head? = some '{'))
    (h : LiteralText t) : LiteralText (c :: t)

theorem literalText_escapeTemplate (t : Text) : LiteralText (escapeTemplate t) := by
  induction t with
  | nil => exact .nil
  | cons c rest ih =>
    by_cases hc : c = '\\' ∨ c = '\x60' ∨ (c = '$' ∧ rest.head? = some '{')
    · rw [escapeTemplate_cons_escaped hc]
      exact .escaped (hc.imp_right fun h => h.imp_right And.left) ih
    · obtain ⟨hb, hk, hd⟩ : c ≠ '\\' ∧ c ≠ '\x60' ∧ ¬(c = '$' ∧ rest.head? = some '{') := by
        simpa only [not_or] using hc
      rw [escapeTemplate_cons_self hb hk hd]
      exact .char hb hk (fun h => hd ⟨h.1, head?_of_escapeTemplate h.2⟩) ih

/-- No escape is cut where a text is taken away that does not end with a backslash. -/
theorem LiteralText.of_append {lead after : Text} (h : LiteralText (lead ++ after))
    (hlead : lead.getLast? ≠ some '\\') : LiteralText after := by
  generalize ht : lead ++ after = t at h
  induction h generalizing lead with
  | nil =>
    obtain ⟨-, rfl⟩ := List.append_eq_nil_iff.1 ht
    exact .nil
  | escaped hc h ih =>
    rcases lead with _ | ⟨d, _ | ⟨d', lead⟩⟩
    · obtain rfl := ht
      exact .escaped hc h
    · obtain rfl : d = '\\' := (List.cons.inj ht).1
      exact absurd rfl hlead
    · refine ih (fun hlast => hlead ?_) (List.cons.inj (List.cons.inj ht).2).2
      rw [List.getLast?_cons_cons, List.getLast?_cons, hlast]
      rfl
  | char hb hk hd h ih =>
    rcases lead with _ | ⟨d, lead⟩
    · obtain rfl := ht
      exact .char hb hk hd h
    · refine ih (fun hlast => hlead ?_) (List.cons.inj ht).2
      rw [List.getLast?_cons, hlast]
      rfl

/-- In the text of a template literal. Behind a dollar sign no brace follows, so that no hole begins. -/
def InLiteral (s : Reading) (next : Option Char) : Prop :=
  s = ⟨.template, []⟩ ∨ s = ⟨.dollar, []⟩ ∧ next ≠ some '{'

variable {s : Reading} {c : Char} {table : List (Text × Text)} {e : Endpoint}

theorem InLiteral.step_eq (h : InLiteral s (some c)) : s.mark c = .none ∧ s.step c = Reading.ofTemplate [] c := by
  rcases h with rfl | ⟨rfl, hbrace⟩
  · exact ⟨rfl, rfl⟩
  · exact ⟨rfl, if_neg fun hc => hbrace (congrArg some hc)⟩

theorem passes_interpolation {name : Text} (hs : InLiteral s (some '$'))
    (hname : Text.isNameLine name = true) : Passes s (interpolation name) ⟨.template, []⟩ := by
  have hinner : Passes ⟨.code, [0]⟩ name ⟨.code, [0]⟩ := by
    refine passes_code fun c hc => ⟨?_, ?_, ?_⟩
    · exact beginsLiteral_of_mem_nameLine hname c hc
    · rintro rfl
      exact not_mem_nameLine hname (by decide) (by decide) hc
    · rintro rfl
      exact not_mem_nameLine hname (by decide) (by decide) hc
  have hopen : Passes ⟨.dollar, []⟩ ['{'] ⟨.code, [0]⟩ := ⟨rfl, rfl⟩
  have hclose : Passes ⟨.code, [0]⟩ ['}'] ⟨.template, []⟩ := ⟨rfl, rfl⟩
  obtain ⟨hmark, hstep⟩ := hs.step_eq
  exact Passes.cons hmark (hstep ▸ (hopen.append (hinner.append hclose)))

theorem LiteralText.behind_key {key after : Text} (hkey : key.getLast? ≠ some '\\')
    (h : LiteralText (':' :: (key ++ after))) : LiteralText after := by
  rw [← List.cons_append] at h
  refine h.of_append ?_
  rw [List.getLast?_cons]
  cases hlast : key.getLast? with
  | none => decide
  | some d => exact fun hd => hkey (hlast.trans hd)

theorem inLiteral_ofTemplate {t : Text} (hb : c ≠ '\\') (hk : c ≠ '\x60')
    (hd : ¬(c = '$' ∧ t.head? = some '{')) : InLiteral (Reading.ofTemplate [] c) t.head? := by
  unfold Reading.ofTemplate
  rw [if_neg hk, if_neg hb]
  split
  next hdollar => exact .inr ⟨rfl, fun hbrace => hd ⟨hdollar, hbrace⟩⟩
  next => exact .inl rfl

/-- The route, with names for its placeholders, stays inside the literal. -/
theorem passes_interpolateUpTo (hkeys : ∀ entry ∈ table, entry.1.getLast? ≠ some '\\')
    (hnames : ∀ entry ∈ table, Text.isNameLine entry.2 = true) (bound : Nat) {t : Text} (atStart : Bool)
    (ht : LiteralText t) (hlength : t.length ≤ bound) (hs : InLiteral s t.head?) :
    ∃ s', InLiteral s' none ∧ Passes s (interpolateUpTo table bound atStart t) s' := by
  induction bound using Nat.strongRecOn generalizing t atStart s with
  | ind bound ih =>
    cases ht with
    | nil =>
      rw [interpolateUpTo_nil]
      exact ⟨s, hs.imp_right fun h => ⟨h.1, nofun⟩, Passes.nil s⟩
    | @escaped c t hc ht =>
      rw [List.length_cons, List.length_cons] at hlength
      obtain ⟨n, rfl⟩ : ∃ n, bound = n + 2 := ⟨bound - 2, by omega⟩
      have hslash : c ≠ '/' := by rcases hc with rfl | rfl | rfl <;> decide
      obtain ⟨hmark, hstep⟩ := hs.step_eq
      obtain ⟨s', hs', hpasses⟩ := ih n (by omega) false ht (by omega) (.inl rfl)
      rw [interpolateUpTo_escaped n hslash]
      refine ⟨s', hs', Passes.cons hmark ?_⟩
      rw [hstep]
      exact Passes.cons rfl hpasses
    | @char c t hb hk hd ht =>
      rw [List.length_cons] at hlength
      obtain ⟨n, rfl⟩ : ∃ n, bound = n + 1 := ⟨bound - 1, by omega⟩
      rw [interpolateUpTo]
      split
      next key name after hfound =>
        split_ifs at hfound
        obtain ⟨hentry, hroute⟩ := placeholder?_eq_some hfound
        have hafter : LiteralText after := by
          refine LiteralText.behind_key (hkeys _ hentry) ?_
          rw [← hroute]
          exact .char hb hk hd ht
        have hlength' : after.length ≤ n := by
          have hsame := congrArg List.length hroute
          rw [List.length_cons, List.length_cons, List.length_append] at hsame
          omega
        obtain ⟨s', hs', hpasses⟩ := ih n (by omega) (key.getLast? = some '/') hafter hlength'
          (.inl rfl)
        obtain ⟨rfl, -⟩ := List.cons.inj hroute
        have hdollar : InLiteral s (some '$') := hs.imp_right fun h => ⟨h.1, by decide⟩
        exact ⟨s', hs', (passes_interpolation hdollar (hnames _ hentry)).append hpasses⟩
      next =>
        obtain ⟨hmark, hstep⟩ := hs.step_eq
        obtain ⟨s', hs', hpasses⟩ :=
          ih n (by omega) (c = '/') ht (by omega) (inLiteral_ofTemplate hb hk hd)
        exact ⟨s', hs', Passes.cons hmark (hstep ▸ hpasses)⟩

/-- Behind its base URL, the literal is read from the middle of a template literal on. -/
theorem quiet_urlExpression_iff : Quiet (urlExpression e) ↔ Passes ⟨.template, []⟩
    (interpolate (longestFirst (pathNames e)) (escapeTemplate e.route) ++ ['\x60']) start := by
  have hbase : Passes start "\x60$\x7bthis.BASE_URL\x7d".toList ⟨.template, []⟩ := by decide
  rw [Quiet, urlExpression_eq, passes_append_iff hbase]
  split
  next hempty => rw [hempty, List.nil_append]
  next => exact passes_cons_iff.trans (and_iff_right rfl)

/-- The URL of a request is one literal, whatever its route. -/
theorem quiet_urlExpression
    (hnames : ∀ p ∈ e.parameters, p.role = .path → Text.isNameLine p.name = true)
    (hkeys : ∀ p ∈ e.parameters, p.role = .path → ∀ key ∈ p.key, key.getLast? ≠ some '\\') :
    Quiet (urlExpression e) := by
  have hentry : ∀ entry ∈ longestFirst (pathNames e), ∃ p ∈ e.parameters, p.role = .path ∧
      p.key = some entry.1 ∧ p.name = entry.2 := by
    intro entry hentry
    obtain ⟨-, p, hp, hname⟩ := mem_pathNames.1 (Text.mem_sortBy.1 hentry)
    obtain ⟨hmem, hkey⟩ := mem_of_lastKeyed? hp
    obtain ⟨hmem, hrole⟩ := Endpoint.mem_withRole.1 hmem
    exact ⟨p, hmem, hrole, hkey, hname⟩
  obtain ⟨s', hs', hpasses⟩ : ∃ s', InLiteral s' none ∧ Passes ⟨.template, []⟩
      (interpolate (longestFirst (pathNames e)) (escapeTemplate e.route)) s' := by
    refine passes_interpolateUpTo ?_ ?_ _ true (literalText_escapeTemplate _) (Nat.le_refl _) (.inl rfl)
    · intro entry hmem
      obtain ⟨p, hp, hrole, hkey, -⟩ := hentry entry hmem
      exact hkeys p hp hrole _ hkey
    · intro entry hmem
      obtain ⟨p, hp, hrole, -, hname⟩ := hentry entry hmem
      exact hname ▸ hnames p hp hrole
  have hclose : Passes s' ['\x60'] start := by
    rcases hs' with rfl | ⟨rfl, -⟩ <;> decide
  exact quiet_urlExpression_iff.2 (hpasses.append hclose)

/-! ## Comments -/

theorem closes_unlines {lines : List Text} : Closes (unlines lines) ↔ ∃ line ∈ lines, Closes line := by
  induction lines with
  | nil => exact iff_of_false (by decide) (by simp)
  | cons line lines ih =>
    simp only [List.mem_cons, exists_eq_or_imp]
    rw [unlines_cons, Closes, Text.infix_append_cons (by decide)]
    exact or_congr_right ih

theorem closes_commentText {indent : Text} {lines : List Text} (hindent : ∀ c ∈ indent, c = ' ') :
    Closes (commentText indent lines) ↔ ∃ line ∈ lines, Closes line := by
  have hblanks : ∀ c ∈ indent ++ [' '], c = ' ' := by
    intro c hc
    rcases List.mem_append.1 hc with hc | hc
    · exact hindent c hc
    · exact List.mem_singleton.1 hc
  have hopen : Closes (commentText indent lines) ↔ Closes (unlines lines ++ (indent ++ [' '])) := by
    rw [commentText, closes_star_cons_of_ne (by decide), closes_cons_of_ne (by decide), List.append_assoc]
  have hclose : ¬Closes (indent ++ [' ']) := fun h =>
    absurd (hblanks _ (star_mem_of_closes h)) (by decide)
  have hhead : (indent ++ [' ']).head? = some ' ' := by
    rw [List.head?_append]
    cases hc : indent.head? with
    | none => rfl
    | some c => rw [hindent c (List.mem_of_head? hc), Option.some_or]
  rw [hopen, closes_append_of_head? hhead (by decide), or_iff_left hclose, closes_unlines]

/-- A text of the template that ends with no star, and closes no comment, is of no account. -/
theorem closes_template_append {lead t : Text} (hlead : ¬Closes lead) (hlast : lead.getLast? ≠ some '*') :
    Closes (lead ++ t) ↔ Closes t := by
  rw [closes_append_of_getLast? hlast, or_iff_right hlead]

theorem closes_classNotes {g : EndpointGroup} (hclass : ¬Closes (clientClassName g.name))
    (hname : ¬Closes g.name) : (∃ line ∈ classNotes g, Closes line) ↔ Closes g.sourceFile := by
  have hfirst : ¬Closes (" * ".toList ++ clientClassName g.name ++ " - Angular service for ".toList
      ++ g.name) := by
    rw [List.append_assoc, List.append_assoc, closes_template_append (by decide) (by decide),
      closes_append_of_head? (c := ' ') rfl (by decide), closes_template_append (by decide) (by decide)]
    exact not_or.2 ⟨hclass, hname⟩
  unfold classNotes
  simp only [List.mem_cons, exists_eq_or_imp, List.not_mem_nil, or_false, exists_eq_left]
  rw [or_iff_right hfirst, List.append_assoc, closes_template_append (by decide) (by decide),
    closes_append_of_head? (c := '.') rfl (by decide)]
  exact or_iff_left (by decide)

theorem closes_methodNotes {m : Method}
    (hparameters : ∀ entry ∈ m.parameters, ¬Closes entry.1 ∧ ¬Closes entry.2) :
    (∃ line ∈ methodNotes m, Closes line) ↔ Closes m.name ∨ Closes m.route ∨ Closes m.returnType := by
  have hverb : ¬Closes m.verb.name := by cases m.verb <;> decide
  have hfirst : Closes ("   * ".toList ++ m.name ++ " - ".toList ++ m.verb.name ++ " /".toList
      ++ m.route) ↔ Closes m.name ∨ Closes m.route := by
    simp only [List.append_assoc]
    rw [closes_template_append (by decide) (by decide), closes_append_of_head? (c := ' ') rfl (by decide),
      closes_template_append (by decide) (by decide), closes_append_of_head? (c := ' ') rfl (by decide),
      closes_template_append (by decide) (by decide), or_iff_right hverb]
  have hnotes : ∀ entry ∈ m.parameters, ¬Closes ("   * @param ".toList ++ entry.1 ++ " - ".toList
      ++ entry.2 ++ " parameter".toList) := by
    intro entry hentry
    obtain ⟨hname, hlabel⟩ := hparameters entry hentry
    simp only [List.append_assoc]
    rw [closes_template_append (by decide) (by decide), closes_append_of_head? (c := ' ') rfl (by decide),
      closes_template_append (by decide) (by decide), closes_append_of_head? (c := ' ') rfl (by decide)]
    exact not_or.2 ⟨hname, not_or.2 ⟨hlabel, by decide⟩⟩
  have hlast : Closes ("   * @returns Observable<".toList ++ m.returnType ++ ">".toList)
      ↔ Closes m.returnType := by
    rw [List.append_assoc, closes_template_append (by decide) (by decide),
      closes_append_of_head? (c := '>') rfl (by decide)]
    exact or_iff_left (by decide)
  constructor
  · rintro ⟨line, hline, hcloses⟩
    unfold methodNotes at hline
    rw [List.mem_append, List.mem_append] at hline
    rcases hline with (hline | hline) | hline
    · rcases List.mem_cons.1 hline with rfl | hline
      · exact (hfirst.1 hcloses).imp_right .inl
      · rw [List.mem_singleton.1 hline] at hcloses
        exact absurd hcloses (by decide)
    · obtain ⟨entry, hentry, rfl⟩ := List.mem_map.1 hline
      exact absurd hcloses (hnotes entry hentry)
    · rw [List.mem_singleton.1 hline] at hcloses
      exact .inr (.inr (hlast.1 hcloses))
  · rintro (hname | hroute | hreturns)
    · exact ⟨_, List.mem_append_left _ (List.mem_append_left _ List.mem_cons_self), hfirst.2 (.inl hname)⟩
    · exact ⟨_, List.mem_append_left _ (List.mem_append_left _ List.mem_cons_self), hfirst.2 (.inr hroute)⟩
    · exact ⟨_, List.mem_append_right _ List.mem_cons_self, hlast.2 hreturns⟩

/-! ## Pieces -/

section Pieces

variable {t : Text} {pieces : List Piece}

theorem readAsWritten_code_cons (h : (t.all fun c => !beginsLiteral c) = true) :
    ReadAsWritten (.code t :: pieces) ↔ ReadAsWritten pieces := by
  have hquiet : Quiet t := quiet_of_not_beginsLiteral fun c hc => by
    simpa using List.all_eq_true.1 h c hc
  rw [readAsWritten_cons, and_iff_right (Piece.reads_code_iff.2 hquiet)]

theorem readAsWritten_inserted_cons :
    ReadAsWritten (.inserted t :: pieces) ↔ Quiet t ∧ ReadAsWritten pieces := by
  rw [readAsWritten_cons, Piece.reads_inserted_iff]

theorem readAsWritten_comment_cons :
    ReadAsWritten (.comment t :: pieces) ↔ ¬Closes t ∧ ReadAsWritten pieces := by
  rw [readAsWritten_cons, Piece.reads_comment_iff]

theorem readAsWritten_separated {sep : Text} {parts : List (List Piece)}
    (h : (sep.all fun c => !beginsLiteral c) = true) :
    ReadAsWritten (separated sep parts) ↔ ∀ part ∈ parts, ReadAsWritten part := by
  induction parts with
  | nil => exact iff_of_true readAsWritten_nil (by simp)
  | cons first more ih =>
    cases more with
    | nil => simp [separated, List.intercalate]
    | cons second more =>
      have hcons : separated sep (first :: second :: more)
          = first ++ .code sep :: separated sep (second :: more) := by
        simp [separated, List.intercalate]
      rw [hcons, readAsWritten_append, readAsWritten_code_cons h, ih, ← List.forall_mem_cons]

end Pieces

/-! ## A method -/

/-- A line ends in the text, so that it cannot be put between quotes as it is. -/
def EndsLine (t : Text) : Prop := '\n' ∈ t ∨ '\r' ∈ t

/-- The literal for a text is read as code around it. That can fail only where a line ends in the text. -/
def ReadableLiteral (t : Text) : Prop := EndsLine t → Quiet (stringLiteral t)

theorem readableLiteral_iff {t : Text} : ReadableLiteral t ↔ Quiet (stringLiteral t) := by
  refine ⟨fun h => ?_, fun h _ => h⟩
  by_cases hline : EndsLine t
  · exact h hline
  · obtain ⟨hfeed, hreturn⟩ := not_or.1 hline
    refine quiet_stringLiteral fun c hc => ⟨?_, ?_⟩
    · rintro rfl
      exact hfeed hc
    · rintro rfl
      exact hreturn hc

theorem quiet_fieldName {key : Text} :
    Quiet (fieldName key) ↔ (Text.isNameLine key = false → ReadableLiteral key) := by
  unfold fieldName
  split
  next hname => exact iff_of_true (quiet_nameLine hname) fun hfalse => by rw [hname] at hfalse; cases hfalse
  next hname => rw [readableLiteral_iff, eq_false_of_ne_true hname, forall_prop_of_true rfl]

end Client

/-- The texts of an endpoint leave the comments of its client as they are. A key that ends with a backslash
may end in the middle of an escape, and takes away what keeps the rest of the route inside the literal. -/
structure Endpoint.KeepsComments (e : Endpoint) : Prop where
  methodName : ¬Closes e.methodName ∧ Quiet e.methodName
  route : ¬Closes e.route
  returnType : ¬Closes e.returnType.expression ∧ Quiet e.returnType.expression
  types : ∀ p ∈ e.clientParameters, Quiet p.type.expression
  queryKeys : ∀ p ∈ e.withRole .query, ∀ key ∈ p.key, key ≠ [] → Client.ReadableLiteral key
  bodyKey : ∀ p ∈ e.bodyParameter, ∀ key ∈ p.key, Text.isNameLine key = false → Client.ReadableLiteral key
  pathKeys : ∀ p ∈ e.parameters, p.role = .path → ∀ key ∈ p.key, key.getLast? = some '\\' →
    ∀ out, Client.WrittenAs e true (Client.escapeTemplate e.route) out →
      Passes ⟨.template, []⟩ (out ++ ['\x60']) start

namespace Client

variable {e : Endpoint}

theorem readAsWritten_parameterPieces {ps : List Parameter} (h : ∀ p ∈ ps, Quiet p.name) :
    (∀ part ∈ parameterPieces ps, ReadAsWritten part) ↔ ∀ p ∈ ps, Quiet p.type.expression := by
  induction ps with
  | nil => exact iff_of_true (by simp [parameterPieces]) (by simp)
  | cons p later ih =>
    obtain ⟨hname, hlater⟩ := List.forall_mem_cons.1 h
    rw [parameterPieces, List.forall_mem_cons, List.forall_mem_cons, ih hlater]
    refine and_congr_left fun _ => ?_
    have hpart (mark suffix : Text) (hmark : (mark.all fun c => !beginsLiteral c) = true)
        (hsuffix : (suffix.all fun c => !beginsLiteral c) = true) :
        ReadAsWritten [.inserted p.name, .code mark, .inserted p.type.expression, .code suffix] ↔
          Quiet p.type.expression := by
      rw [readAsWritten_inserted_cons, and_iff_right hname, readAsWritten_code_cons hmark,
        readAsWritten_inserted_cons, readAsWritten_code_cons hsuffix, and_iff_left readAsWritten_nil]
    split
    · exact hpart _ _ (by decide) (by decide)
    · split <;> exact hpart _ _ (by decide) (by decide)

theorem readAsWritten_queryPieces {q : QueryEntry} (hname : Quiet q.name) :
    ReadAsWritten (queryPieces q) ↔ ∀ key ∈ q.key, key ≠ [] → ReadableLiteral key := by
  unfold queryPieces
  rcases q.key with _ | _ | ⟨c, key⟩ <;>
    simp (disch := decide) only [List.cons_append, List.nil_append, readAsWritten_code_cons,
      readAsWritten_inserted_cons, readAsWritten_nil, hname, true_and, and_true]
  · simp
  · simp
  · simp [readableLiteral_iff]

theorem readAsWritten_bodyPieces {p : Parameter} (hname : Quiet p.name) : ReadAsWritten (bodyPieces p) ↔
    ∀ key ∈ p.key, Text.isNameLine key = false → ReadableLiteral key := by
  unfold bodyPieces
  cases p.key with
  | none => simp [readAsWritten_inserted_cons, hname, readAsWritten_nil]
  | some key =>
    simp (disch := decide) only [readAsWritten_code_cons, readAsWritten_inserted_cons, readAsWritten_nil,
      hname, and_true, quiet_fieldName]
    simp

theorem readAsWritten_argumentPieces (hnames : ∀ p ∈ e.clientParameters, Quiet p.name) :
    (∀ part ∈ argumentPieces e, ReadAsWritten part) ↔
      ∀ p ∈ e.bodyParameter, ∀ key ∈ p.key, Text.isNameLine key = false → ReadableLiteral key := by
  have hbody : ∀ p ∈ e.bodyParameter, (ReadAsWritten (bodyPieces p) ↔
      ∀ key ∈ p.key, Text.isNameLine key = false → ReadableLiteral key) := fun p hp =>
    readAsWritten_bodyPieces (hnames p (e.mem_clientParameters (by decide) (List.mem_of_head? hp)))
  unfold argumentPieces optionPieces
  cases hp : e.bodyParameter with
  | none =>
    cases e.verb.takesBody <;> cases (e.withRole .query).isEmpty <;>
      simp (disch := decide) [readAsWritten_code_cons, readAsWritten_separated, readAsWritten_append,
        readAsWritten_nil]
  | some p =>
    have hread := hbody p hp
    cases e.verb.takesBody <;> cases (e.withRole .query).isEmpty <;>
      simp (disch := decide) [readAsWritten_code_cons, readAsWritten_separated, readAsWritten_append,
        readAsWritten_nil, hread]

theorem readAsWritten_paramsPieces {query : List QueryEntry} (hnames : ∀ q ∈ query, Quiet q.name) :
    ReadAsWritten (paramsPieces query) ↔ ∀ q ∈ query, ∀ key ∈ q.key, key ≠ [] → ReadableLiteral key := by
  unfold paramsPieces
  split
  next hempty =>
    rw [List.isEmpty_iff.1 hempty]
    exact iff_of_true readAsWritten_nil (by simp)
  next =>
    rw [readAsWritten_code_cons (by decide), readAsWritten_flatMap]
    exact forall₂_congr fun q hq => readAsWritten_queryPieces (hnames q hq)

theorem readAsWritten_methodPieces (hnames : ∀ p ∈ e.clientParameters, Text.isNameLine p.name = true) :
    ReadAsWritten (methodPieces e) ↔ e.KeepsComments := by
  have hquiet : ∀ p ∈ e.clientParameters, Quiet p.name := fun p hp => quiet_nameLine (hnames p hp)
  have hlabels : ∀ role, ¬Closes (roleLabel role) := by rintro ⟨⟩ <;> decide
  have hnotes : Closes (commentText "  ".toList (methodNotes (.ofEndpoint e))) ↔
      Closes e.methodName ∨ Closes e.route ∨ Closes e.returnType.expression := by
    rw [closes_commentText (List.all_iff_forall_prop.1 (by decide))]
    refine closes_methodNotes fun entry hentry => ?_
    obtain ⟨p, hp, rfl⟩ := List.mem_map.1 hentry
    exact ⟨not_closes_nameLine (hnames p hp), hlabels p.role⟩
  have hquery : ReadAsWritten (paramsPieces ((e.withRole .query).map fun p => ⟨p.name, p.key⟩)) ↔
      ∀ p ∈ e.withRole .query, ∀ key ∈ p.key, key ≠ [] → ReadableLiteral key := by
    rw [readAsWritten_paramsPieces, List.forall_mem_map]
    rw [List.forall_mem_map]
    exact fun p hp => hquiet p (e.mem_clientParameters (by decide) hp)
  have hurl : (∀ p ∈ e.parameters, p.role = .path → ∀ key ∈ p.key, key.getLast? = some '\\' →
      ∀ out, WrittenAs e true (escapeTemplate e.route) out → Passes ⟨.template, []⟩ (out ++ ['\x60']) start) ↔
      Quiet (urlExpression e) := by
    refine ⟨fun h => ?_, fun h _ _ _ _ _ _ out hout => ?_⟩
    · by_cases hkeys : ∀ p ∈ e.parameters, p.role = .path → ∀ key ∈ p.key, key.getLast? ≠ some '\\'
      · refine quiet_urlExpression (fun p hp hrole => hnames p ?_) hkeys
        exact e.mem_clientParameters (by decide) (Endpoint.mem_withRole.2 ⟨hp, hrole⟩)
      · push Not at hkeys
        obtain ⟨p, hp, hrole, key, hkey, hlast⟩ := hkeys
        exact quiet_urlExpression_iff.2 (h p hp hrole key hkey hlast _ (writtenAs_shown e true _))
    · rw [hout.eq_shown]
      exact quiet_urlExpression_iff.1 h
  have hverb : (("    return this.http.".toList ++ (e.verb.methodName ++ "<".toList)).all
      fun c => !beginsLiteral c) = true := by cases e.verb <;> decide
  unfold methodPieces
  simp (disch := first | exact hverb | decide) only [List.append_assoc, List.cons_append,
    List.nil_append, readAsWritten_code_cons, readAsWritten_inserted_cons, readAsWritten_comment_cons,
    readAsWritten_append, readAsWritten_separated, readAsWritten_parameterPieces hquiet,
    readAsWritten_argumentPieces hquiet, hquery, hnotes, not_or, readAsWritten_nil]
  rw [← hurl]
  constructor
  · rintro ⟨⟨hname, hroute, hreturns⟩, hcode, htypes, hreturned, hliteral, hkeys, -, hbody, -⟩
    exact ⟨⟨hname, hcode⟩, hroute, ⟨hreturns, hreturned⟩, htypes, hkeys, hbody, hliteral⟩
  · rintro ⟨⟨hname, hcode⟩, hroute, ⟨hreturns, hreturned⟩, htypes, hkeys, hbody, hliteral⟩
    exact ⟨⟨hname, hroute, hreturns⟩, hcode, htypes, hreturned, hliteral, hkeys, hreturned, hbody,
      trivial⟩

/-! ## The file -/

/-- The modules that are named in the imports of a client, those of the framework apart. -/
def importedModules (config : Config) (endpoints : List Endpoint) (baseModule configModule : Text) :
    List Text :=
  (if (typeImports endpoints).isEmpty then [] else [config.sharedTypesModule])
    ++ [baseModule, configModule]

theorem readAsWritten_importPieces {names : List Piece} {module : Piece} (hnames : ∀ p ∈ names, p.Reads) :
    ReadAsWritten (importPieces names module) ↔ module.Reads := by
  have hseparated : ∀ part ∈ names.map ([·]), ReadAsWritten part := by
    intro part hpart
    obtain ⟨p, hp, rfl⟩ := List.mem_map.1 hpart
    exact readAsWritten_cons.2 ⟨hnames p hp, readAsWritten_nil⟩
  rw [importPieces, readAsWritten_code_cons (by decide), readAsWritten_append,
    readAsWritten_separated (by decide), and_iff_right hseparated, readAsWritten_code_cons (by decide),
    readAsWritten_cons, readAsWritten_code_cons (by decide), and_iff_left readAsWritten_nil]

theorem reads_code (names : List Text) (h : ∀ n ∈ names, (n.all fun c => !beginsLiteral c) = true) :
    ∀ p ∈ names.map Piece.code, p.Reads := by
  intro p hp
  obtain ⟨n, hn, rfl⟩ := List.mem_map.1 hp
  exact readAsWritten_iff.1 ((readAsWritten_code_cons (h n hn)).2 readAsWritten_nil) _ List.mem_cons_self

theorem reads_module {t : Text} (h : (t.all fun c => c ≠ '\n' ∧ c ≠ '\r') = true) :
    (Piece.code (stringLiteral t)).Reads :=
  Piece.reads_code_iff.2 (quiet_stringLiteral (List.all_iff_forall_prop.1 h))

theorem readAsWritten_core :
    ReadAsWritten (importPieces [.code "Injectable".toList] (.code (stringLiteral "@angular/core".toList))) :=
  (readAsWritten_importPieces (reads_code ["Injectable".toList] (by decide))).2 (reads_module (by decide))

theorem readAsWritten_http (usesParams : Bool) : ReadAsWritten (importPieces
    (.code "HttpClient".toList :: if usesParams then [.code "HttpParams".toList] else [])
    (.code (stringLiteral "@angular/common/http".toList))) := by
  have hmodule : (Piece.code (stringLiteral "@angular/common/http".toList)).Reads :=
    reads_module (by decide)
  cases usesParams with
  | false =>
    exact (readAsWritten_importPieces (reads_code ["HttpClient".toList] (by decide))).2 hmodule
  | true =>
    exact (readAsWritten_importPieces
      (reads_code ["HttpClient".toList, "HttpParams".toList] (by decide))).2 hmodule

theorem readAsWritten_rxjs :
    ReadAsWritten (importPieces [.code "Observable".toList] (.code (stringLiteral "rxjs".toList))) :=
  (readAsWritten_importPieces (reads_code ["Observable".toList] (by decide))).2 (reads_module (by decide))

theorem readAsWritten_classPieces {g : EndpointGroup} (hclass : Quiet (clientClassName g.name))
    (hcloses : ¬Closes (clientClassName g.name)) (hname : ¬Closes g.name) :
    ReadAsWritten (classPieces g) ↔ ¬Closes g.sourceFile := by
  have hhead : (Piece.code (unlines ["@Injectable(\x7b".toList, "  providedIn: 'root',".toList,
      "\x7d)".toList] ++ "export class ".toList)).Reads := Piece.reads_code_iff.2 (by decide)
  rw [classPieces, readAsWritten_code_cons (by decide), readAsWritten_comment_cons,
    closes_commentText (List.forall_mem_nil _), closes_classNotes hcloses hname,
    readAsWritten_code_cons (by decide), readAsWritten_cons, and_iff_right hhead, readAsWritten_inserted_cons, and_iff_right hclass,
    readAsWritten_code_cons (by decide), and_iff_left readAsWritten_nil]

/-- A client's file is read as it is written where its names are names and its endpoints leave comments
alone. -/
theorem readAsWritten_filePieces {config : Config} {g : EndpointGroup} {endpoints : List Endpoint}
    {baseModule configModule : Text} (hclass : Quiet (clientClassName g.name))
    (hcloses : ¬Closes (clientClassName g.name)) (hname : ¬Closes g.name)
    (himports : ∀ n ∈ typeImports endpoints, Quiet n)
    (hnames : ∀ e ∈ endpoints, ∀ p ∈ e.clientParameters, Text.isNameLine p.name = true) :
    ReadAsWritten (filePieces config g endpoints baseModule configModule) ↔ ¬Closes g.sourceFile ∧
      (∀ m ∈ importedModules config endpoints baseModule configModule, ReadableLiteral m) ∧
      ∀ e ∈ endpoints, e.KeepsComments := by
  have hmodule {t : Text} : (Piece.inserted (stringLiteral t)).Reads ↔ ReadableLiteral t := by
    rw [Piece.reads_inserted_iff, readableLiteral_iff]
  have htypes : ReadAsWritten (if (typeImports endpoints).isEmpty then []
      else importPieces ((typeImports endpoints).map .inserted)
        (.inserted (stringLiteral config.sharedTypesModule))) ↔
      ∀ m ∈ if (typeImports endpoints).isEmpty then [] else [config.sharedTypesModule],
        ReadableLiteral m := by
    split
    · exact iff_of_true readAsWritten_nil (by simp)
    · rw [readAsWritten_importPieces, hmodule, List.forall_mem_singleton]
      intro p hp
      obtain ⟨n, hn, rfl⟩ := List.mem_map.1 hp
      exact Piece.reads_inserted_iff.2 (himports n hn)
  have hmethods : ReadAsWritten (endpoints.flatMap methodPieces) ↔ ∀ e ∈ endpoints, e.KeepsComments := by
    rw [readAsWritten_flatMap]
    exact forall₂_congr fun e he => readAsWritten_methodPieces (hnames e he)
  have hbase : ReadAsWritten (importPieces [.code "BaseApiService".toList]
      (.inserted (stringLiteral baseModule))) ↔ ReadableLiteral baseModule :=
    (readAsWritten_importPieces (reads_code ["BaseApiService".toList] (by decide))).trans
      hmodule
  have hconfig : ReadAsWritten (importPieces [.code "AppConfigService".toList]
      (.inserted (stringLiteral configModule))) ↔ ReadableLiteral configModule :=
    (readAsWritten_importPieces (reads_code ["AppConfigService".toList] (by decide))).trans
      hmodule
  unfold filePieces importedModules
  simp (disch := decide) only [readAsWritten_append, readAsWritten_core, readAsWritten_http,
    readAsWritten_rxjs, htypes, hbase, hconfig, readAsWritten_classPieces hclass hcloses hname, hmethods,
    readAsWritten_code_cons, readAsWritten_nil, true_and, and_true, List.forall_mem_append,
    List.forall_mem_cons, List.not_mem_nil, false_implies, forall_const]
  constructor
  · rintro ⟨⟨⟨⟨hshared, hbase⟩, hconfig⟩, hpath⟩, hendpoints⟩
    exact ⟨hpath, ⟨hshared, hbase, hconfig⟩, hendpoints⟩
  · rintro ⟨hpath, ⟨hshared, hbase, hconfig⟩, hendpoints⟩
    exact ⟨⟨⟨⟨hshared, hbase⟩, hconfig⟩, hpath⟩, hendpoints⟩

end Client

namespace Extractor

variable {x : Extractor} {c : Controller} {path : Text} {statements : List Statement}

theorem isNameLine_of_classify {p : ParameterDecl} (keys : List Text) (cs : Constants)
    (h : (classify p keys cs).role ≠ .ignored) : Text.isNameLine p.name = true := by
  unfold classify at h
  dsimp only at h
  split at h
  · exact absurd rfl h
  · exact absurd rfl h
  · split at h
    · exact absurd rfl h
    next hname => simpa using hname

theorem isNameLine_of_mem_clientParameters {e : Endpoint} (he : e ∈ x.extract c) {p : Parameter}
    (hp : p ∈ e.clientParameters) : Text.isNameLine p.name = true := by
  obtain ⟨m, -, d, verb, -, rfl⟩ := (x.mem_extract c).1 he
  rw [x.clientParameters_endpoint] at hp
  obtain ⟨b, hb, rfl⟩ := List.mem_map.1 hp
  obtain ⟨hbound, hrole⟩ := List.mem_filter.1 hb
  have hkept : b.role ≠ .ignored := of_decide_eq_true hrole
  refine isNameLine_of_classify x.config.internalPathKeys (c.source.knownConstants x.constants) ?_
  rw [← classification_of_mem_bindParameters hbound, BoundParameter.role_of_ne_ignored hkept]
  exact hkept

theorem exists_class_of_controller {config : Config} {apiPrefix : Text} {shared : Constants}
    (hc : (readFile path statements).controller? config apiPrefix shared = some c) :
    c.group.sourceFile = path ∧ ∃ name : Name, c.group.name = name.text := by
  obtain ⟨decl, hdecl, rfl⟩ := Option.map_eq_some_iff.1 hc
  refine ⟨rfl, ?_⟩
  obtain ⟨statement, -, hclass⟩ := List.mem_filterMap.1 (List.mem_of_find?_eq_some hdecl)
  cases statement with
  | classDecl outer cls =>
    obtain rfl := Option.some.inj hclass
    exact ⟨cls.name, rfl⟩
  | importing _ => cases hclass
  | bindings _ => cases hclass
  | other => cases hclass

/-- The file of a controller's client is read as it is written, with the comments that are meant to be
there and no others, exactly if neither the controller's path nor any text of its endpoints disturbs the
comments. -/
theorem comments_closed_iff {config : Config} {apiPrefix : Text} {shared : Constants}
    (hc : (readFile path statements).controller? config apiPrefix shared = some c) {file : GeneratedFile}
    (hfile : Client.render config c.group (x.extract c) = .ok file) :
    ∃ baseModule configModule,
      Client.baseImport config (Client.filePath c.group) config.baseServiceModule = .ok baseModule ∧
      Client.baseImport config (Client.filePath c.group) config.configServiceModule = .ok configModule ∧
      file.contents = Piece.texts
        (Client.filePieces config c.group (x.extract c) baseModule configModule) ∧
      (ReadAsWritten (Client.filePieces config c.group (x.extract c) baseModule configModule) ↔
        ¬Closes path ∧
        (∀ m ∈ Client.importedModules config (x.extract c) baseModule configModule,
          Client.ReadableLiteral m) ∧
        ∀ e ∈ x.extract c, e.KeepsComments) := by
  obtain ⟨baseModule, configModule, hbase, hconfig, hcontents⟩ := Client.texts_filePieces hfile
  refine ⟨baseModule, configModule, hbase, hconfig, hcontents, ?_⟩
  obtain ⟨hpath, name, hname⟩ := exists_class_of_controller hc
  rw [← hpath]
  refine Client.readAsWritten_filePieces ?_ ?_ ?_ ?_ fun e he p hp =>
    isNameLine_of_mem_clientParameters he hp
  · rw [hname]
    exact Client.quiet_clientClassName name
  · rw [hname]
    exact fun h => Client.not_mem_clientClassName name (by decide) (by decide) (star_mem_of_closes h)
  · rw [hname]
    exact fun h => absurd (name.written '*' (star_mem_of_closes h)) (by decide)
  · intro n hn
    obtain ⟨e, he, himport⟩ := List.mem_flatMap.1 (Text.mem_distinct.1 hn)
    obtain ⟨m, -, d, verb, -, rfl⟩ := (x.mem_extract c).1 he
    refine Client.quiet_nameLine ?_
    rw [Text.isNameLine, (of_mem_imports himport).2, Bool.true_or]

def filesStatements (route : Text) : List Statement :=
  [.classDecl [] {
    name := ⟨"FilesController".toList, List.all_eq_true.1 (by decide)⟩
    decorators := [⟨"Controller".toList, [⟨"'files'".toList, .string "'files'".toList⟩]⟩]
    members := [.decorator ⟨"Get".toList, [⟨route, .string route⟩]⟩,
      .method {
        name := "read".toList
        parameters := [{
          decorators := [⟨"Param".toList, []⟩]
          pattern := "id".toList
          type := some [.plain "string".toList] }]
        returnType := some [.plain "string".toList] }] }]

def filesController (route : Text) : Option Controller :=
  (readFile "files.controller.ts".toList (filesStatements route)).controller? {} [] []

def filesExtractor : Extractor := { config := {}, apiPrefix := [] }

def filesGroup : EndpointGroup :=
  ⟨"FilesController".toList, "files".toList, "files.controller.ts".toList, []⟩

def filesParameter : Parameter := ⟨"id".toList, ⟨"string".toList, []⟩, .path, some "id".toList, false⟩

def filesEndpoint (route : Text) : Endpoint :=
  ⟨"read".toList, .get, route, [filesParameter], ⟨"string".toList, []⟩, []⟩

/-- Of this controller only the route can disturb the comments. -/
theorem keepsComments_filesEndpoint (route : Text) : (filesEndpoint route).KeepsComments ↔ ¬Closes route := by
  have hname : ¬Closes "read".toList ∧ Quiet "read".toList := by decide
  have hreturns : ¬Closes "string".toList ∧ Quiet "string".toList := by decide
  refine ⟨fun h => h.route, fun hroute => ⟨hname, hroute, hreturns, ?_, nofun, nofun, ?_⟩⟩
  · exact List.forall_mem_singleton.2 hreturns.2
  · intro p hp _ key hkey hlast
    obtain rfl : p = filesParameter := List.mem_singleton.1 hp
    obtain rfl : "id".toList = key := Option.some.inj hkey
    exact absurd hlast (by decide)

theorem comments_closed_iff_files :
    (∃ c file baseModule configModule, filesController "':id/meta'".toList = some c ∧
      Client.render {} c.group (filesExtractor.extract c) = .ok file ∧
      file.contents = Piece.texts
        (Client.filePieces {} c.group (filesExtractor.extract c) baseModule configModule) ∧
      ReadAsWritten (Client.filePieces {} c.group (filesExtractor.extract c) baseModule configModule)) ∧
    ∃ c file baseModule configModule, filesController "':id/*/meta'".toList = some c ∧
      Client.render {} c.group (filesExtractor.extract c) = .ok file ∧
      file.contents = Piece.texts
        (Client.filePieces {} c.group (filesExtractor.extract c) baseModule configModule) ∧
      ¬ReadAsWritten (Client.filePieces {} c.group (filesExtractor.extract c) baseModule configModule) := by
  have hbase : Client.baseImport {} (Client.filePath filesGroup) ({} : Config).baseServiceModule
      = .ok "../services/base-api.service".toList := by decide +kernel
  have hconfig : Client.baseImport {} (Client.filePath filesGroup) ({} : Config).configServiceModule
      = .ok "../services/app-config.service".toList := by decide +kernel
  have hread (written route : Text) (hcontroller : (filesController written).map
      (fun c => (c.group, filesExtractor.extract c)) = some (filesGroup, [filesEndpoint route])) :
      ∃ c file baseModule configModule, filesController written = some c ∧
        Client.render {} c.group (filesExtractor.extract c) = .ok file ∧
        file.contents = Piece.texts
          (Client.filePieces {} c.group (filesExtractor.extract c) baseModule configModule) ∧
        (ReadAsWritten
          (Client.filePieces {} c.group (filesExtractor.extract c) baseModule configModule) ↔
            ¬Closes route) := by
    obtain ⟨c, hc, heq⟩ := Option.map_eq_some_iff.1 hcontroller
    obtain ⟨hgroup, hextract⟩ := Prod.mk.inj heq
    obtain ⟨file, hfile⟩ : ∃ file, Client.render {} c.group (filesExtractor.extract c) = .ok file := by
      rw [hgroup, Client.render, hbase, hconfig]
      exact ⟨_, rfl⟩
    obtain ⟨baseModule, configModule, hbase', hconfig', hcontents, hiff⟩ := comments_closed_iff hc hfile
    refine ⟨c, file, baseModule, configModule, hc, hfile, hcontents, hiff.trans ?_⟩
    rw [hgroup, hbase, Except.ok.injEq] at hbase'
    rw [hgroup, hconfig, Except.ok.injEq] at hconfig'
    rw [hextract, List.forall_mem_singleton, keepsComments_filesEndpoint, ← hbase', ← hconfig']
    refine ⟨fun h => h.2.2, fun hroute => ⟨by decide, ?_, hroute⟩⟩
    have hmodules (m m' : Text) : Client.importedModules {} [filesEndpoint route] m m' = [m, m'] := rfl
    rw [hmodules, List.forall_mem_cons, List.forall_mem_singleton, Client.readableLiteral_iff,
      Client.readableLiteral_iff]
    exact ⟨quiet_stringLiteral (List.all_iff_forall_prop.1 (by decide)),
      quiet_stringLiteral (List.all_iff_forall_prop.1 (by decide))⟩
  constructor
  · obtain ⟨c, file, baseModule, configModule, hc, hfile, hcontents, hiff⟩ :=
      hread "':id/meta'".toList "files/:id/meta".toList (by decide +kernel)
    exact ⟨c, file, baseModule, configModule, hc, hfile, hcontents, hiff.2 (by decide)⟩
  · obtain ⟨c, file, baseModule, configModule, hc, hfile, hcontents, hiff⟩ :=
      hread "':id/*/meta'".toList "files/:id/*/meta".toList (by decide +kernel)
    exact ⟨c, file, baseModule, configModule, hc, hfile, hcontents,
      fun h => hiff.1 h (by decide)⟩

end Extractor

end NestClient
