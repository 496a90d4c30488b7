import NestClient.Client.Source
import NestClient.Proofs.Extract.WellFormed
import NestClient.Proofs.TypeScript.StringLiteral

/-! The keys under which a client sends its query parameters and the properties of its body, from the
literal in the server's source to the literal in the client's.

* `stringValue?_stringLiteral`: what a client writes as a literal is read back, but for line ends.
* `Extractor.wire_key_iff`: the two literals have one value exactly where the first one is written
  without escapes and has no blanks at its ends. -/

namespace NestClient

open TypeScript

/-! ## Literals that a client writes -/

namespace Client

variable {key t : Text} {units : List Nat}

theorem stringValue?_stringLiteral : stringValue? (stringLiteral t) = some units ↔
    units = codeUnits t ∧ ∀ c ∈ t, c ≠ '\n' ∧ c ≠ '\r' := by
  show literalUnits? '\x27' (t.flatMap escapeQuoted ++ ['\x27']) = some units ↔ _
  induction t generalizing units with
  | nil =>
    rw [List.flatMap_nil, List.nil_append, literalUnits?_end, Option.some.injEq, eq_comm]
    simp [codeUnits]
  | cons c rest ih =>
    rw [List.flatMap_cons, List.append_assoc, escapeQuoted, List.forall_mem_cons, codeUnits_cons]
    have hmore : (literalUnits? '\x27' (rest.flatMap escapeQuoted ++ ['\x27'])).map (unitsOf c.toNat ++ ·)
        = some units ↔ units = unitsOf c.toNat ++ codeUnits rest ∧ ∀ d ∈ rest, d ≠ '\n' ∧ d ≠ '\r' := by
      rw [Option.map_eq_some_iff]
      constructor
      · rintro ⟨more, hread, rfl⟩
        obtain ⟨rfl, hlines⟩ := ih.1 hread
        exact ⟨rfl, hlines⟩
      · rintro ⟨rfl, hlines⟩
        exact ⟨_, ih.2 ⟨rfl, hlines⟩, rfl⟩
    by_cases hescaped : c = '\\' ∨ c = '\x27'
    · have hread : ∀ u : Text, escapeUnits? (c :: u) = some (unitsOf c.toNat, u) := by
        rcases hescaped with rfl | rfl <;> exact fun u => rfl
      have hline : c ≠ '\n' ∧ c ≠ '\r' := by rcases hescaped with rfl | rfl <;> decide
      rw [if_pos (by simpa using hescaped), List.cons_append, List.singleton_append,
        literalUnits?_escape (by decide) (hread _), hmore, and_iff_right hline]
    · obtain ⟨hslash, hquote⟩ := not_or.1 hescaped
      rw [if_neg (by simpa using hescaped), List.singleton_append]
      by_cases hline : c = '\n' ∨ c = '\r'
      · rw [literalUnits?_line hquote hline]
        exact ⟨fun h => (nomatch h), fun h => absurd hline (not_or.2 h.2.1)⟩
      · rw [literalUnits?_char hquote hslash hline, hmore, and_iff_right (not_or.1 hline)]

/-- The property of a body that a key names, as the client writes it. -/
def fieldName (key : Text) : Text := if Text.isNameLine key then key else stringLiteral key

/-- The name of a property that is written as a name or as a literal. -/
def propertyName? (t : Text) : Option (List Nat) :=
  if Text.isName t then some (codeUnits t) else stringValue? t

theorem isName_of_isNameLine (h : Text.isNameLine key = true) (hend : key.getLast? ≠ some '\n') :
    Text.isName key = true := by
  refine (Text.isNameLine_iff.1 h).resolve_right ?_
  rintro ⟨name, rfl, -⟩
  exact hend List.getLast?_concat

/-- A key is the name of its property, unless a line ends in it. -/
theorem propertyName?_fieldName_iff (hend : key.getLast? ≠ some '\n') :
    propertyName? (fieldName key) = some units ↔ units = codeUnits key ∧ ∀ c ∈ key, c ≠ '\n' ∧ c ≠ '\r' := by
  have hliteral : Text.isName (stringLiteral key) = false := rfl
  unfold fieldName
  split
  next hline =>
    have hname := isName_of_isNameLine hline hend
    have hlines : ∀ c ∈ key, c ≠ '\n' ∧ c ≠ '\r' := by
      intro c hc
      have hchar := isNameChar_of_mem_name hname hc
      refine ⟨?_, ?_⟩ <;> rintro rfl <;> exact absurd hchar (by decide)
    rw [propertyName?, if_pos hname, Option.some.injEq, eq_comm, and_iff_left hlines]
  next => rw [propertyName?, hliteral, if_neg Bool.false_ne_true, stringValue?_stringLiteral]

theorem propertyName?_fieldName (hkey : Text.Trimmed key) : propertyName? (fieldName key) = some units ↔
    units = codeUnits key ∧ ∀ c ∈ key, c ≠ '\n' ∧ c ≠ '\r' :=
  propertyName?_fieldName_iff fun hend => absurd (hkey.last '\n' hend) (by decide)

end Client

/-! ## From a literal to a key -/

/-- The first binding decorator of the parameter binds it to a role, and the first argument of the
decorator is the written string literal. -/
def TypeScript.ParameterNode.KeyLiteral (p : ParameterNode) (role : Role) (written : Text) : Prop :=
  ∃ d ∈ p.decorators, ∃ a raw, firstBinding (p.decorators.map DecoratorNode.read)
      = some (d.read, .request role) ∧ d.arguments.head? = some a ∧ a.expr = .string raw ∧
    a.source = written

theorem bindingKey_of_literal {d : DecoratorNode} {a : ArgumentNode} {raw : Text}
    (ha : d.arguments.head? = some a) (hstring : a.expr = .string raw) (cs : Constants) :
    bindingKey d.read cs = if (Text.trim (unquote a.source)).isEmpty then none
      else some (Text.trim (unquote a.source)) := by
  have hread : d.read.arguments.head? = some ⟨.string, a.source, some (unquote a.source), []⟩ := by
    rw [DecoratorNode.read, List.head?_map, ha, Option.map_some, ArgumentNode.read, hstring]
  rw [bindingKey, hread]
  rfl

theorem key_of_firstBinding {p : ParameterDecl} {keys : List Text} {cs : Constants} {d : Decorator}
    {role : Role} (hbinding : firstBinding p.decorators = some (d, .request role))
    (hrole : (classify p keys cs).role = .query ∨ (classify p keys cs).role = .body) :
    (classify p keys cs).key = bindingKey d cs := by
  unfold classify at hrole ⊢
  dsimp only at hrole ⊢
  rw [hbinding] at hrole ⊢
  dsimp only at hrole ⊢
  split at hrole
  next => rcases hrole with h | h <;> cases h
  next hname =>
    rw [if_neg hname]
    split at hrole
    next hpath =>
      split at hrole
      next => rcases hrole with h | h <;> cases h
      next => rcases hrole with h | h <;> exact absurd (hpath.symm.trans h) (by decide)
    next hpath => rw [if_neg hpath]

/-! ## Where keys stand in the code -/

/-- The code of the endpoint's method sets the parameter in the query under this literal. -/
def Endpoint.SetsQuery (e : Endpoint) (q : Parameter) (literal : Text) : Prop :=
  Client.queryLines ⟨q.name, q.key⟩ <:+: Client.codeLines (Client.Method.ofEndpoint e) ∧
    "      params = params.set(".toList ++ literal ++ ", String(".toList ++ q.name ++ "));".toList
      ∈ Client.queryLines ⟨q.name, q.key⟩

/-- The code of the endpoint's method sends the parameter as the one property, so named, of the body. -/
def Endpoint.SendsProperty (e : Endpoint) (q : Parameter) (property : Text) : Prop :=
  Client.bodyExpression q
      = "\x7b ".toList ++ property ++ ": ".toList ++ q.name ++ " \x7d".toList ∧
    ∃ line ∈ Client.codeLines (Client.Method.ofEndpoint e), Client.bodyExpression q <:+: line

variable {e : Endpoint} {q : Parameter} {key : Text}

theorem Endpoint.bodyParameter_eq (hone : (e.withRole .body).length ≤ 1) (h : q ∈ e.withRole .body) :
    e.bodyParameter = some q := by
  rw [bodyParameter]
  cases hbodies : e.withRole .body with
  | nil =>
    rw [hbodies] at h
    exact absurd h List.not_mem_nil
  | cons first more =>
    rw [hbodies] at h hone
    obtain rfl : more = [] := List.length_eq_zero_iff.1 (by simpa using hone)
    rw [List.mem_singleton.1 h]
    rfl

theorem Endpoint.setsQuery (hq : q ∈ e.withRole .query) (hkey : q.key = some key) (hne : key ≠ []) :
    e.SetsQuery q (Client.stringLiteral key) := by
  obtain ⟨first, rest, rfl⟩ := List.exists_cons_of_ne_nil hne
  constructor
  · obtain ⟨before, after, hsplit⟩ := List.append_of_mem
      (List.mem_map_of_mem (f := fun p : Parameter => (⟨p.name, p.key⟩ : Client.QueryEntry)) hq)
    have hquery : (Client.Method.ofEndpoint e).query
        = before ++ (⟨q.name, q.key⟩ : Client.QueryEntry) :: after := hsplit
    have hsome : (Client.Method.ofEndpoint e).query.isEmpty = false := by
      rw [hquery, List.isEmpty_eq_false_iff]
      simp
    rw [Client.codeLines, hsome, if_neg Bool.false_ne_true, hquery, List.flatMap_append, List.flatMap_cons]
    refine List.IsInfix.trans ?_ (List.prefix_append _ _).isInfix
    refine List.IsInfix.trans ?_ (List.suffix_append _ _).isInfix
    refine ⟨"    let params = new HttpParams();".toList :: before.flatMap Client.queryLines,
      after.flatMap Client.queryLines, ?_⟩
    rw [List.cons_append, List.cons_append, List.append_assoc]
  · rw [hkey, Client.queryLines]
    exact List.mem_cons_of_mem _ List.mem_cons_self

theorem infix_join {sep part : Text} {parts : List Text} (h : part ∈ parts) :
    part <:+: Text.join sep parts := by
  obtain ⟨before, after, hjoin, -⟩ := @Text.mem_join sep _ _ h
  exact ⟨before, after, by rw [hjoin, List.append_assoc]⟩

theorem Endpoint.infix_body (hbody : e.bodyParameter = some q) :
    ∃ line ∈ Client.codeLines (Client.Method.ofEndpoint e), Client.bodyExpression q <:+: line := by
  have harguments : Client.bodyExpression q <:+: Text.join ", ".toList (Client.callArguments e) := by
    by_cases hverb : e.verb.takesBody = true
    · refine infix_join ?_
      rw [Client.callArguments, hbody, if_pos hverb]
      exact List.mem_cons_of_mem _ (List.mem_append_left _ List.mem_cons_self)
    · have hmem : "body: ".toList ++ Client.bodyExpression q ∈ Client.requestOptions e := by
        rw [Client.requestOptions, hbody]
        dsimp only
        rw [if_neg hverb]
        split
        · exact List.mem_cons_self
        · exact List.mem_cons_of_mem _ List.mem_cons_self
      have hsome : (Client.requestOptions e).isEmpty = false := by
        rw [List.isEmpty_eq_false_iff]
        exact List.ne_nil_of_mem hmem
      have hargument : "\x7b ".toList ++ Text.join ", ".toList (Client.requestOptions e) ++ " \x7d".toList
          ∈ Client.callArguments e := by
        rw [Client.callArguments, hsome]
        exact List.mem_append_right _ List.mem_cons_self
      have hoption : Client.bodyExpression q <:+: Text.join ", ".toList (Client.requestOptions e) :=
        (List.suffix_append _ _).isInfix.trans (infix_join hmem)
      have hbraces : Text.join ", ".toList (Client.requestOptions e) <:+:
          "\x7b ".toList ++ Text.join ", ".toList (Client.requestOptions e) ++ " \x7d".toList := ⟨_, _, rfl⟩
      exact (hoption.trans hbraces).trans (infix_join hargument)
  exact ⟨_, List.mem_append_right _ List.mem_cons_self, harguments.trans ⟨_, _, rfl⟩⟩

theorem Endpoint.sendsProperty (hbody : e.bodyParameter = some q) (hkey : q.key = some key) :
    e.SendsProperty q (Client.fieldName key) := by
  refine ⟨?_, e.infix_body hbody⟩
  rw [Client.bodyExpression, hkey]
  rfl

namespace Extractor

variable {x : Extractor} {c : Controller} {path : Text} {statements : List Statement}

/-- The literals that give the parameters of a method their keys, and those that the client writes for
these keys. Where the first has a value that is not blank, the second has the same one if and only if the
first is written without escapes and without blanks at its ends. -/
def KeepsKeys (node : MethodNode) (e : Endpoint) : Prop :=
  ∀ p q, (p, q) ∈ node.parameters.zip e.parameters → ∀ role written units, p.KeyLiteral role written →
    stringValue? written = some units → (∃ u ∈ units, isBlankUnit u = false) →
    (q.role = .query → ∃ literal, e.SetsQuery q literal ∧
      (stringValue? literal = some units ↔
        '\\' ∉ written ∧ Text.trim (unquote written) = unquote written)) ∧
    (q.role = .body → ∃ property, e.SendsProperty q property ∧
      (Client.propertyName? property = some units ↔
        '\\' ∉ written ∧ Text.trim (unquote written) = unquote written))

/-- The key of a parameter that is sent is the trimmed text of the literal. -/
theorem key_of_keyLiteral {imports : List ImportDecl} {m : MethodNode} {decorators : List DecoratorNode}
    {d : Decorator} {verb : Verb} {p : ParameterNode} {q : Parameter} {role : Role} {written : Text}
    (hzip : (p, q) ∈ m.parameters.zip
      (x.endpoint c (m.read imports decorators) d verb).parameters)
    (hliteral : p.KeyLiteral role written) (hrole : q.role = .query ∨ q.role = .body)
    (hne : Text.trim (unquote written) ≠ []) : q.key = some (Text.trim (unquote written)) := by
  obtain ⟨node, -, a, raw, hbinding, ha, hstring, rfl⟩ := hliteral
  obtain ⟨b, rfl, -, hclassified⟩ := bound_of_mem_zip (mem_zip_read hzip)
  have hkept : b.role ≠ .ignored := by
    rcases hrole with h | h <;>
    · rw [BoundParameter.toParameter] at h
      dsimp only at h
      rw [h]
      decide
  have hclass := BoundParameter.role_of_ne_ignored hkept
  have hkey : b.classification.key = bindingKey node.read (c.source.knownConstants x.constants) := by
    rw [hclassified] at hclass ⊢
    refine key_of_firstBinding (p := p.read imports) hbinding ?_
    rw [hclass]
    exact hrole
  have hempty : (Text.trim (unquote a.source)).isEmpty = false := List.isEmpty_eq_false_iff.2 hne
  rw [BoundParameter.toParameter, hkey, bindingKey_of_literal ha hstring, hempty]
  rfl

/-- Every endpoint of a controller is that of a method in its file, and the literals with which the method
binds parameters to a query or a body go over into the client as far as they are written plainly. -/
theorem wire_key_iff {config : Config} {apiPrefix : Text} {shared : Constants}
    (hc : (readFile path statements).controller? config apiPrefix shared = some c) {e : Endpoint}
    (he : e ∈ x.extract c) :
    ∃ outer cls node decorators d verb, .classDecl outer cls ∈ statements ∧
      .method node ∈ cls.members ∧
      e = x.endpoint c (node.read (readFile path statements).imports decorators) d verb ∧
      KeepsKeys node e := by
  obtain ⟨-, outer, cls, node, decorators, d, verb, hcls, hnode, rfl⟩ := exists_method_of_mem_extract hc he
  refine ⟨outer, cls, node, decorators, d, verb, hcls, hnode, rfl, ?_⟩
  intro p q hzip role written units hliteral hvalue ⟨u, hu, hvisible⟩
  obtain ⟨quote, raw, rfl, hquote, hspells⟩ := spells_of_stringValue? hvalue
  have hmark : isQuoteMark quote = true ∧ quote ≠ '\\' := by rcases hquote with rfl | rfl <;> decide
  have hslash : '\\' ∈ quote :: (raw ++ [quote]) ↔ '\\' ∈ raw := by
    simp [Ne.symm hmark.2]
  have hraw := unquote_of_quotes hmark.1 raw
  have hne : Text.trim raw ≠ [] := by
    intro hblank
    have hnone := visible_trim raw
    have hle := hspells.visible_le
    have hpos : 0 < visible units := List.countP_pos_iff.2 ⟨u, hu, by rw [hvisible]; rfl⟩
    rw [hblank] at hnone
    have hzero : visible (codeUnits []) = 0 := rfl
    omega
  have hdenotes : (units = codeUnits (Text.trim raw) ∧ ∀ ch ∈ Text.trim raw, ch ≠ '\n' ∧ ch ≠ '\r') ↔
      '\\' ∉ raw ∧ Text.trim raw = raw := by
    rw [hspells.value_eq_iff]
    refine and_iff_left_of_imp fun h => ?_
    rw [h.2]
    exact (hspells.plain h.1).2
  have hparameter := (List.of_mem_zip hzip).2
  have hkey (hrole : q.role = .query ∨ q.role = .body) : q.key = some (Text.trim raw) :=
    hraw ▸ key_of_keyLiteral hzip hliteral hrole (hraw.symm ▸ hne)
  rw [hslash, hraw, ← hdenotes]
  refine ⟨fun hrole => ?_, fun hrole => ?_⟩
  · have hsent := Endpoint.mem_withRole.2 ⟨hparameter, hrole⟩
    exact ⟨_, Endpoint.setsQuery hsent (hkey (.inl hrole)) hne, Client.stringValue?_stringLiteral⟩
  · have hbody := Endpoint.bodyParameter_eq (x.length_withRole_body c _ d verb)
      (Endpoint.mem_withRole.2 ⟨hparameter, hrole⟩)
    exact ⟨_, Endpoint.sendsProperty hbody (hkey (.inr hrole)),
      Client.propertyName?_fieldName (Text.trimmed_trim raw)⟩

def noteQuery : ParameterNode :=
  { decorators := [⟨"Query".toList, [⟨"'it\\'s'".toList, .string "'it\\'s'".toList⟩]⟩]
    pattern := "owner".toList }

def noteBody : ParameterNode :=
  { decorators := [⟨"Body".toList, [⟨"\"last-seen\"".toList, .string "\"last-seen\"".toList⟩]⟩]
    pattern := "seen".toList }

def noteStatements : List Statement :=
  [.classDecl [] {
    name := ⟨"NoteController".toList, List.all_eq_true.1 (by decide)⟩
    decorators := [{ callee := "Controller".toList }]
    members := [.decorator { callee := "Post".toList },
      .method { name := "find".toList, parameters := [noteQuery, noteBody] }] }]

def noteController : Option Controller :=
  (readFile "note.controller.ts".toList noteStatements).controller? {} [] []

def noteExtractor : Extractor := { config := {}, apiPrefix := [] }

theorem wire_key_iff_note : ∃ c e q b, noteController = some c ∧ e ∈ noteExtractor.extract c ∧
    e.parameters = [q, b] ∧
    (stringValue? "'it\\'s'".toList = some (codeUnits "it's".toList) ∧ ∃ literal, e.SetsQuery q literal ∧
      stringValue? literal ≠ some (codeUnits "it's".toList)) ∧
    (stringValue? "\"last-seen\"".toList = some (codeUnits "last-seen".toList) ∧
      ∃ property, e.SendsProperty b property ∧
        Client.propertyName? property = some (codeUnits "last-seen".toList)) := by
  have hroles : (noteController.map fun c => (noteExtractor.extract c).map fun e =>
      e.parameters.map (·.role)) = some [[.query, .body]] := by decide +kernel
  obtain ⟨c, hc, hendpoints⟩ := Option.map_eq_some_iff.1 hroles
  obtain ⟨e, _, heq, hparameters, -⟩ := List.map_eq_cons_iff.1 hendpoints
  obtain ⟨q, _, hq, hquery, hrest⟩ := List.map_eq_cons_iff.1 hparameters
  obtain ⟨b, _, rfl, hbody, hnil⟩ := List.map_eq_cons_iff.1 hrest
  obtain rfl := List.map_eq_nil_iff.1 hnil
  have he : e ∈ noteExtractor.extract c := heq ▸ List.mem_cons_self
  obtain ⟨outer, cls, node, decorators, d, verb, hcls, hnode, -, hkeeps⟩ := wire_key_iff hc he
  obtain ⟨rfl, rfl⟩ := Statement.classDecl.inj (List.mem_singleton.1 hcls)
  obtain rfl := Member.method.inj
    (List.mem_singleton.1 ((List.mem_cons.1 hnode).resolve_left (by simp)))
  have hzip : [noteQuery, noteBody].zip e.parameters = [(noteQuery, q), (noteBody, b)] := by
    rw [hq]
    rfl
  have hescaped : stringValue? "'it\\'s'".toList = some (codeUnits "it's".toList) := by decide +kernel
  have hplain : stringValue? "\"last-seen\"".toList = some (codeUnits "last-seen".toList) := by
    decide +kernel
  have hescapedKey := (hkeeps noteQuery q (hzip ▸ List.mem_cons_self) .query _ _
    ⟨_, List.mem_cons_self, _, _, rfl, rfl, rfl, rfl⟩ hescaped ⟨105, by decide, by decide⟩).1 hquery
  have hplainKey := (hkeeps noteBody b (hzip ▸ List.mem_cons_of_mem _ List.mem_cons_self) .body _ _
    ⟨_, List.mem_cons_self, _, _, rfl, rfl, rfl, rfl⟩ hplain ⟨108, by decide, by decide⟩).2 hbody
  obtain ⟨literal, hsets, hliteral⟩ := hescapedKey
  obtain ⟨property, hsends, hproperty⟩ := hplainKey
  refine ⟨c, e, q, b, hc, he, hq, ⟨hescaped, literal, hsets, fun hread => ?_⟩, hplain, property,
    hsends, hproperty.2 (by decide)⟩
  exact absurd (hliteral.1 hread).1 (by decide)

end Extractor

end NestClient
