import NestClient.Proofs.TypeScript.ReadLists
import NestClient.TypeScript.Grammar.File

/-! Written types are read to their pieces. A type is followed by a comma, a bracket that closes
something, or the body of a method. -/

namespace NestClient.TypeScript

open Printed

/-! ## What follows a type -/

/-- A text before which a type ends. -/
structure ClosesType (t : Text) : Prop where
  next : ∃ lead c more rest, Starts t .mark lead (c :: more) rest ∧ c ∈ ",)>\x7b".toList
  endsWord : EndsWord t
  stays : Stays t

namespace ClosesType

theorem lone {c : Char} (hc : c ∈ ",)".toList) (rest : Text) : ClosesType (c :: rest) := by
  have hlone : c ∈ loneMarks ∧ c ∈ ",)>\x7b".toList ∧ c ∈ wordEnds ∧ isSpace c = false ∧ c ≠ '/'
      ∧ c ≠ '}' := by
    have hcases : c = ',' ∨ c = ')' := by simpa using hc
    rcases hcases with rfl | rfl <;> decide
  obtain ⟨hmark, hend, hword, hspace, hslash, hclose⟩ := hlone
  exact ⟨⟨[], c, [], rest, .lone blank_nil hmark rest, hend⟩, endsWord_cons rest hword,
    stays_of_solid [] (by simp) hspace hslash hclose⟩

theorem angle (rest : Text) : ClosesType ('>' :: rest) := by
  obtain ⟨more, after, hrest, hs⟩ := Starts.angle blank_nil rest
  exact ⟨⟨[], '>', more, after, hs, by decide⟩, endsWord_cons rest (by decide),
    stays_of_solid [] (by simp) (by decide) (by decide) (by decide)⟩

theorem body (rest : Text) : ClosesType (' ' :: '{' :: '}' :: rest) :=
  ⟨⟨" ".toList, '{', [], '}' :: rest, .before blank_space (by decide) (by decide) rest, by decide⟩,
    endsWord_cons _ (by decide),
    stays_of_solid " ".toList (by simp) (by decide) (by decide) (by decide)⟩

end ClosesType

/-- A text before which a name in a type ends: the type ends, or brackets follow. -/
structure ClosesTypeName (t : Text) : Prop where
  next : ∃ lead c more rest, Starts t .mark lead (c :: more) rest ∧ c ∈ ",)>\x7b[<".toList
  endsWord : EndsWord t

theorem ClosesType.next_pairs {t : Text} (h : ClosesType t) (n : Nat) :
    ∃ lead c more rest, Starts (TypeExpr.pairs n ++ t) .mark lead (c :: more) rest ∧ c ≠ '<' := by
  cases n with
  | zero =>
    obtain ⟨lead, c, more, rest, hs, hc⟩ := h.next
    refine ⟨lead, c, more, rest, hs, ?_⟩
    rintro rfl
    exact absurd hc (by decide)
  | succ n => exact ⟨[], '[', [], _, .lone blank_nil (by decide) _, by decide⟩

theorem ClosesType.closesName {t : Text} (h : ClosesType t) : ClosesTypeName t := by
  obtain ⟨lead, c, more, rest, hs, hc⟩ := h.next
  exact ⟨⟨lead, c, more, rest, hs, List.mem_append_left "[<".toList hc⟩, h.endsWord⟩

/-! ## Type arguments and brackets -/

namespace Printed.TypeExpr

/-- The type arguments in their brackets. -/
def argumentsText : List TypeExpr → Text
  | [] => []
  | first :: more => '<' :: (first.text ++ (renderMore asWritten more ++ ['>']))

def argumentPieces : List TypeExpr → TypeSource
  | [] => []
  | first :: more => markPieces '<' ++ (first.pieces [] ++ (piecesMore more ++ markPieces '>'))

def arguments : TypeExpr → List TypeExpr
  | mk _ _ ts _ => ts

def brackets : TypeExpr → Nat
  | mk _ _ _ n => n

theorem text_mk (space : Option Identifier) (name : Identifier) (ts : List TypeExpr) (n : Nat) :
    (mk space name ts n).text = asWritten space name ++ (argumentsText ts ++ pairs n) := by
  cases ts <;> simp [text, render, argumentsText]

theorem pieces_mk (lead : Text) (space : Option Identifier) (name : Identifier) (ts : List TypeExpr)
    (n : Nat) :
    (mk space name ts n).pieces lead
      = namePieces lead space name ++ (argumentPieces ts ++ pairPieces n) := by
  cases ts <;> simp [pieces, argumentPieces]

theorem renderMore_cons (t : TypeExpr) (ts : List TypeExpr) :
    renderMore asWritten (t :: ts) = ',' :: ' ' :: listed ((t :: ts).map text) := by
  induction ts generalizing t with
  | nil => simp [renderMore, listed_single, text]
  | cons u us ih =>
    rw [renderMore, ih, List.map_cons, List.map_cons, List.map_cons, listed_cons_cons]
    simp [text]

theorem pairs_succ (n : Nat) : pairs (n + 1) = '[' :: ']' :: pairs n := rfl

theorem pairPieces_succ (n : Nat) :
    pairPieces (n + 1) = markPieces '[' ++ (markPieces ']' ++ pairPieces n) := by
  rw [pairPieces, List.replicate_succ, List.flatten_cons, List.append_assoc, pairPieces]

theorem closesName_pairs {after : Text} (hafter : ClosesTypeName after) (n : Nat) :
    ClosesTypeName (pairs n ++ after) := by
  cases n with
  | zero => exact hafter
  | succ n =>
    exact ⟨⟨[], '[', [], _, .lone blank_nil (by decide) _, by decide⟩, endsWord_cons _ (by decide)⟩

theorem head_text (t : TypeExpr) (after : Text) :
    ∃ (name : Identifier) (rest : Text), t.text ++ after = name.text ++ rest := by
  obtain ⟨space, name, ts, n⟩ := t
  rw [text_mk]
  cases space with
  | none => exact ⟨name, argumentsText ts ++ pairs n ++ after, by simp [asWritten]⟩
  | some space => exact ⟨space, '.' :: name.text ++ (argumentsText ts ++ pairs n) ++ after, by simp [asWritten]⟩

theorem starts_arguments {after : Text} (first : TypeExpr) (more : List TypeExpr) :
    Starts (argumentsText (first :: more) ++ after) .mark [] ['<']
      (first.text ++ (renderMore asWritten more ++ '>' :: after)) := by
  obtain ⟨name, rest, hname⟩ := first.head_text (renderMore asWritten more ++ '>' :: after)
  have hmark := Starts.mark blank_nil (name.isOwnMark_head (c := '<') (by decide) (by decide) rest)
  rw [← hname] at hmark
  simpa [argumentsText] using hmark

theorem closesName_arguments {after : Text} (hafter : ClosesTypeName after) (ts : List TypeExpr) :
    ClosesTypeName (argumentsText ts ++ after) := by
  cases ts with
  | nil => exact hafter
  | cons first more =>
    exact ⟨⟨[], '<', [], _, starts_arguments first more, by decide⟩, endsWord_cons _ (by decide)⟩

/-- A type begins with a name, and a mark follows the name. -/
theorem starts {lead after : Text} (t : TypeExpr) (hlead : Blank lead) (hafter : ClosesTypeName after) :
    ∃ (name : Identifier) (rest : Text), Starts (lead ++ (t.text ++ after)) .word lead name.text rest
      ∧ ∃ lead' word rest', Starts rest .mark lead' word rest' := by
  obtain ⟨space, name, ts, n⟩ := t
  have hrest : ClosesTypeName (argumentsText ts ++ (pairs n ++ after)) :=
    closesName_arguments (closesName_pairs hafter n) ts
  rw [text_mk]
  cases space with
  | none =>
    obtain ⟨lead', c, more, rest', hs, -⟩ := hrest.next
    exact ⟨name, _, by simpa [asWritten] using Starts.name name hlead hrest.endsWord,
      lead', c :: more, rest', hs⟩
  | some space =>
    have hdot : EndsWord ('.' :: (name.text ++ (argumentsText ts ++ (pairs n ++ after)))) :=
      endsWord_cons _ (by decide)
    exact ⟨space, _, by simpa [asWritten] using Starts.name space hlead hdot, [], ['.'], _,
      .mark blank_nil (name.isOwnMark_head (by decide) (by decide) _)⟩

/-- A type that is one word of the language is none of those written. -/
theorem text_ne (t : TypeExpr) {w : String} (hw : w ∈ languageWords)
    (hchars : w.toList.all isWordChar = true) : t.text ≠ w.toList := by
  intro h
  have hword {c : Char} (hc : c ∈ t.text) : isWordChar c = true :=
    List.all_eq_true.1 hchars c (h ▸ hc)
  obtain ⟨space, name, ts, n⟩ := t
  rw [text_mk] at h hword
  match space, ts, n with
  | some space, _, _ => exact absurd (hword (c := '.') (by simp [asWritten])) (by decide)
  | none, first :: more, _ => exact absurd (hword (c := '<') (by simp [argumentsText])) (by decide)
  | none, [], n + 1 => exact absurd (hword (c := '[') (by simp [pairs_succ])) (by decide)
  | none, [], 0 => exact name.text_ne hw (by simpa [asWritten, argumentsText, pairs] using h)

theorem pieces_cons (t : TypeExpr) : ∃ ps, ∀ lead, t.pieces lead = .plain lead :: ps := by
  obtain ⟨space, name, ts, n⟩ := t
  cases space with
  | none => exact ⟨_, fun lead => pieces_mk lead none name ts n⟩
  | some space => exact ⟨_, fun lead => pieces_mk lead (some space) name ts n⟩

theorem length_pairs (n : Nat) : (pairs n).length = 2 * n := by
  induction n with
  | zero => rfl
  | succ n ih =>
    rw [pairs_succ, List.length_cons, List.length_cons, ih]
    omega

theorem renderMore_eq_flatMap (ts : List TypeExpr) :
    renderMore asWritten ts = ts.flatMap fun t => ',' :: ' ' :: t.text := by
  induction ts with
  | nil => rfl
  | cons t ts ih =>
    rw [renderMore, ih, List.flatMap_cons, List.append_assoc]
    rfl

theorem lengths_argumentsText (ts : List TypeExpr) :
    ts.length ≤ (argumentsText ts).length ∧ ∀ u ∈ ts, u.text.length < (argumentsText ts).length := by
  cases ts with
  | nil => exact ⟨Nat.le_refl 0, fun _ h => absurd h List.not_mem_nil⟩
  | cons first more =>
    obtain ⟨hcount, hmore⟩ := lengths_flatMap (f := fun t : TypeExpr => ',' :: ' ' :: t.text)
      fun t (_ : t ∈ more) => Nat.zero_lt_succ _
    rw [← renderMore_eq_flatMap] at hcount hmore
    have hlength : (argumentsText (first :: more)).length
        = 2 + first.text.length + (renderMore asWritten more).length := by
      simp [argumentsText]
      omega
    refine ⟨by rw [List.length_cons]; omega, fun u hu => ?_⟩
    rcases List.mem_cons.1 hu with rfl | hu
    · omega
    · have hless := hmore u hu
      simp only [List.length_cons] at hless
      omega

theorem lengths_lt (t : TypeExpr) : t.arguments.length < t.text.length ∧ t.brackets < t.text.length
    ∧ ∀ u ∈ t.arguments, u.text.length < t.text.length := by
  obtain ⟨space, name, ts, n⟩ := t
  obtain ⟨hcount, hmore⟩ := lengths_argumentsText ts
  have hname : 0 < (asWritten space name).length := by
    have hpos := name.length_pos
    cases space with
    | none => exact hpos
    | some space =>
      show 0 < (space.text ++ '.' :: name.text).length
      rw [List.length_append, List.length_cons]
      omega
  have hlength : (mk space name ts n).text.length
      = (asWritten space name).length + ((argumentsText ts).length + 2 * n) := by
    rw [text_mk, List.length_append, List.length_append, length_pairs]
  simp only [arguments, brackets]
  refine ⟨by omega, by omega, fun u hu => ?_⟩
  have hless := hmore u hu
  omega

end Printed.TypeExpr

/-- The rules read a type where it is due. -/
def ReadsType (r : Rules) (t : TypeExpr) : Prop :=
  ∀ e lead after, Blank lead → ClosesType after →
    Reads (r.read (.type e)) (lead ++ (t.text ++ after)) after fun _ leaves =>
      Cut leaves (t.pieces lead)

namespace Reads

open Parse Rules

variable {r : Rules} {e : Ending} {lead after : Text}

/-! ## Names -/

theorem typeName_simple (name : Identifier) (hlead : Blank lead) (hafter : ClosesTypeName after) :
    Reads r.typeName (lead ++ (name.text ++ after)) after fun _ leaves =>
      Cut leaves (namePieces lead none name) := by
  obtain ⟨lead', c, more, rest, hs, hc⟩ := hafter.next
  have hdot : c ≠ '.' := by
    rintro rfl
    exact absurd hc (by decide)
  have hname : Starts (lead ++ (name.text ++ after)) .word lead name.text after :=
    .name name hlead hafter.endsWord
  unfold Rules.typeName
  refine peek_bind hname fun line place => ?_
  rw [if_neg (by simp)]
  refine ahead_bind hname hs fun line' place' => ?_
  rw [if_pos (by simp [hdot])]
  refine (discard (advance hname (by decide) .typeName)).mono fun _ leaves h => ?_
  obtain ⟨_, line, place, rfl, rfl⟩ := h
  exact .leaf (fun h => nomatch h) .nil

theorem typeName_qualified (space name : Identifier) (hlead : Blank lead)
    (hafter : ClosesTypeName after) :
    Reads r.typeName (lead ++ (space.text ++ ('.' :: (name.text ++ after)))) after fun _ leaves =>
      Cut leaves (namePieces lead (some space) name) := by
  obtain ⟨lead', c, more, rest, hs, hc⟩ := hafter.next
  have hdot : c ≠ '.' := by
    rintro rfl
    exact absurd hc (by decide)
  have hspace : Starts (lead ++ (space.text ++ ('.' :: (name.text ++ after)))) .word lead space.text
      ('.' :: (name.text ++ after)) :=
    .name space hlead (endsWord_cons _ (by decide))
  have hpoint : Starts ('.' :: (name.text ++ after)) .mark [] ['.'] (name.text ++ after) :=
    .mark blank_nil (name.isOwnMark_head (by decide) (by decide) after)
  have hname : Starts (name.text ++ after) .word [] name.text after :=
    .name name blank_nil hafter.endsWord
  unfold Rules.typeName
  refine peek_bind hspace fun line place => ?_
  rw [if_neg (by simp)]
  refine ahead_bind hspace hpoint fun line' place' => ?_
  rw [if_neg (by simp)]
  refine ahead_three_bind hspace hpoint hname hs fun line' place' => ?_
  rw [if_pos (by simp [hdot])]
  refine (discard (advance hspace (by decide) .space)).bind fun _ first hfirst => ?_
  refine (mark (m := ".") hpoint).bind fun _ second hsecond => ?_
  refine peek_bind hname fun line place => ?_
  rw [if_pos rfl]
  refine (discard (advance hname (by decide) .memberName)).mono fun _ third hthird => ?_
  obtain ⟨_, line₁, place₁, rfl, rfl⟩ := hfirst
  obtain ⟨dot, rfl, htrivia, htext⟩ := hsecond.single
  obtain ⟨_, line₃, place₃, rfl, rfl⟩ := hthird
  have hcut : Cut [⟨⟨.word, lead, space.text, line₁, place₁⟩, .space⟩, dot,
      ⟨⟨.word, [], name.text, line₃, place₃⟩, .memberName⟩] _ := .qualified rfl .nil
  simpa [namePieces, asWritten, htrivia, htext] using hcut

theorem typeName (space : Option Identifier) (name : Identifier) (hlead : Blank lead)
    (hafter : ClosesTypeName after) :
    Reads r.typeName (lead ++ (asWritten space name ++ after)) after fun _ leaves =>
      Cut leaves (namePieces lead space name) := by
  cases space with
  | none => exact typeName_simple name hlead hafter
  | some space =>
    have hwritten : asWritten (some space) name ++ after
        = space.text ++ ('.' :: (name.text ++ after)) := by
      simp [asWritten]
    rw [hwritten]
    exact typeName_qualified space name hlead hafter

/-! ## Type arguments and brackets -/

theorem cut_arguments {lead : Text} {t : TypeExpr} {ts : List TypeExpr} {as : List Unit}
    {leaves : List Leaf}
    (h : Each (withCommas (fun lead t _ leaves => Cut leaves (t.pieces lead)) lead (t :: ts)) as leaves) :
    Cut leaves (t.pieces lead ++ TypeExpr.piecesMore ts) := by
  induction ts generalizing lead t as leaves with
  | nil =>
    cases h with
    | cons hcut hmore =>
      cases hmore
      exact hcut.append .nil
  | cons u us ih =>
    cases h with
    | cons hcut hmore =>
      obtain ⟨item, comma, rfl, hitem, hcomma⟩ := hcut
      have hall := (hitem.append hcomma).append (ih hmore)
      simpa [TypeExpr.piecesMore, markPieces] using hall

theorem typeArguments {first : TypeExpr} {more : List TypeExpr} (hfirst : ReadsType r first)
    (hmore : ∀ t ∈ more, ReadsType r t) (hbound : more.length < r.bound) :
    Reads r.typeArguments (TypeExpr.argumentsText (first :: more) ++ after) after fun _ leaves =>
      Cut leaves (TypeExpr.argumentPieces (first :: more)) := by
  unfold Rules.typeArguments Rules.typesFrom
  refine (cut (TypeExpr.starts_arguments first more)).bind fun _ opening hopening => ?_
  rw [List.nil_append]
  obtain ⟨angle, behind, rfl, hangle⟩ := Starts.angle blank_nil after
  cases more with
  | nil =>
    refine (hfirst .never [] _ blank_nil (.angle _)).bind fun _ leaves hcut => ?_
    refine accept_false_bind ⟨_, _, _, _, hangle, by simp⟩ ?_
    refine (cut hangle).mono fun _ closing hclosing => ?_
    have hall := hopening.append (hcut.append hclosing)
    simpa [TypeExpr.argumentPieces, TypeExpr.piecesMore, markPieces] using hall
  | cons second more =>
    have hcomma : Starts (',' :: ' ' :: (listed ((second :: more).map TypeExpr.text)
        ++ '>' :: (angle ++ behind))) .mark [] [','] _ := .lone blank_nil (by decide) _
    have hitems : ReadsItems r.type TypeExpr.text '>' ('>' :: (angle ++ behind)) (second :: more)
        fun lead t _ leaves => Cut leaves (t.pieces lead) := by
      have hends (after : Text) (hafter : after = '>' :: (angle ++ behind)
          ∨ ∃ more, after = ',' :: ' ' :: more) : ClosesType after :=
        behind_item (.angle _) (fun more => .lone (by decide) _) hafter
      refine ⟨fun t ht lead hlead after hafter => ?_, fun t _ lead hlead after hafter => ?_⟩
      · exact hmore t ht .never lead after (blank_lead hlead) (hends after hafter)
      · obtain ⟨name, rest, hs, -⟩ := t.starts (blank_lead hlead) (hends after hafter).closesName
        exact ⟨_, _, _, _, hs, by simp⟩
    rw [TypeExpr.renderMore_cons]
    refine (hfirst .never [] _ blank_nil (.lone (by decide) _)).bind fun _ leaves hcut => ?_
    refine accept_true_bind hcomma (by simp) (by decide) fun comma hcutComma => ?_
    refine (discard (commaList_cons hitems (.inr rfl) (by decide) hangle hbound)).mono
      fun _ others h => ?_
    obtain ⟨_, items, closing, rfl, heach, hclosing⟩ := h
    have hall := hopening.append (hcut.append (hcutComma.append ((cut_arguments heach).append hclosing)))
    simpa [TypeExpr.argumentPieces, TypeExpr.piecesMore, markPieces] using hall

theorem typeArguments? {ts : List TypeExpr} (hts : ∀ t ∈ ts, ReadsType r t)
    (hbound : ts.length < r.bound)
    (hafter : ∃ lead c more rest, Starts after .mark lead (c :: more) rest ∧ c ≠ '<') :
    Reads (r.typeArguments? e) (TypeExpr.argumentsText ts ++ after) after fun _ leaves =>
      Cut leaves (TypeExpr.argumentPieces ts) := by
  unfold Rules.typeArguments?
  cases ts with
  | nil =>
    obtain ⟨lead, c, more, rest, hs, hc⟩ := hafter
    refine peek_bind hs fun line place => ?_
    rw [if_neg (by simp [hc])]
    exact pure .nil
  | cons first more =>
    refine peek_bind (TypeExpr.starts_arguments first more) fun line place => ?_
    rw [if_pos (by simp)]
    have hless : more.length < r.bound := Nat.lt_of_succ_lt hbound
    exact typeArguments (hts first List.mem_cons_self)
      (fun t ht => hts t (List.mem_cons_of_mem first ht)) hless

theorem suffix_step (n : Nat) (after : Text) :
    Reads
      (do
        if !isMark "[" (← peek) || (← lineEnds e) then return none
        else
          Parse.skip
          if !isMark "]" (← peek) then r.type
          Parse.mark "]"
          return some ())
      (TypeExpr.pairs (n + 1) ++ after) (TypeExpr.pairs n ++ after)
      fun b leaves => ∃ next, b = some next ∧ Cut leaves (markPieces '[' ++ markPieces ']') := by
  have hopen : Starts (TypeExpr.pairs (n + 1) ++ after) .mark [] ['['] (']' :: (TypeExpr.pairs n ++ after)) :=
    .lone blank_nil (by decide) _
  have hclose : Starts (']' :: (TypeExpr.pairs n ++ after)) .mark [] [']'] (TypeExpr.pairs n ++ after) :=
    .lone blank_nil (by decide) _
  have hstays : Stays (TypeExpr.pairs (n + 1) ++ after) :=
    stays_of_solid [] (by simp) (by decide) (by decide) (by decide)
  refine peek_bind hopen fun line place => lineEnds_bind hopen (hstays e) ?_
  rw [if_neg (by simp)]
  refine (skip hopen (by decide)).bind fun _ first hfirst => peek_bind hclose fun line' place' => ?_
  rw [if_neg (by simp)]
  refine (mark (m := "]") hclose).bind fun _ second hsecond => pure ⟨(), rfl, ?_⟩
  rw [List.append_nil]
  exact hfirst.append hsecond

theorem typeSuffixes (n : Nat) (hafter : ClosesType after) (hbound : n < r.bound) :
    Reads (r.typeSuffixes e) (TypeExpr.pairs n ++ after) after fun _ leaves =>
      Cut leaves (TypeExpr.pairPieces n) := by
  unfold Rules.typeSuffixes
  refine (discard (Q := fun _ leaves => Cut leaves (TypeExpr.pairPieces n)) ?_).mono fun _ _ ⟨_, h⟩ => h
  generalize r.bound = bound at hbound
  induction n generalizing bound with
  | zero =>
    obtain ⟨lead, c, more, rest, hs, hc⟩ := hafter.next
    have hbracket : c ≠ '[' := by
      rintro rfl
      exact absurd hc (by decide)
    refine iterate_last hbound ?_
    refine peek_bind hs fun line place => lineEnds_bind hs (hafter.stays e) ?_
    rw [if_pos (by simp [hbracket])]
    exact pure ⟨rfl, .nil⟩
  | succ n ih =>
    obtain ⟨bound, rfl⟩ := Nat.exists_eq_succ_of_ne_zero (Nat.ne_zero_of_lt hbound)
    refine iterate_next (suffix_step n after) fun _ leaves hpair => ?_
    refine (ih bound (Nat.lt_of_succ_lt_succ hbound)).mono fun _ more hmore => ?_
    rw [TypeExpr.pairPieces_succ, ← List.append_assoc]
    exact hpair.append hmore

/-! ## Types -/

theorem words_typeName : ∀ w ∈ builtInTypes ++ valueTypes ++ typeOperators, w ∈ languageWords := by
  decide

theorem words_builtIn : ∀ w ∈ builtInTypes ++ valueTypes, w ∈ languageWords := fun w hw =>
  words_typeName w (List.mem_append_left typeOperators hw)

theorem words_type : "unique" ∈ languageWords ∧ "typeof" ∈ languageWords ∧ "import" ∈ languageWords
    ∧ "readonly" ∈ languageWords ∧ "abstract" ∈ languageWords ∧ "new" ∈ languageWords
    ∧ "infer" ∈ languageWords ∧ "keyof" ∈ languageWords := by
  decide

theorem typeAtom (space : Option Identifier) (name : Identifier) {ts : List TypeExpr}
    (hts : ∀ t ∈ ts, ReadsType r t) (hbound : ts.length < r.bound) (hlead : Blank lead)
    (hafter : ClosesTypeName after)
    (hangle : ∃ lead c more rest, Starts after .mark lead (c :: more) rest ∧ c ≠ '<') :
    Reads (r.typeAtom e) (lead ++ (asWritten space name ++ (TypeExpr.argumentsText ts ++ after))) after
      fun suffix leaves => suffix = .brackets
        ∧ Cut leaves (namePieces lead space name ++ TypeExpr.argumentPieces ts) := by
  have hname : ClosesTypeName (TypeExpr.argumentsText ts ++ after) := TypeExpr.closesName_arguments hafter ts
  obtain ⟨first, rest, hs, -⟩ := (TypeExpr.mk space name [] 0).starts hlead hname
  rw [TypeExpr.text_mk space name [] 0, TypeExpr.argumentsText, TypeExpr.pairs, List.replicate_zero,
    List.flatten_nil, List.append_nil, List.append_nil] at hs
  have hreference : Reads r.typeReference
      (lead ++ (asWritten space name ++ (TypeExpr.argumentsText ts ++ after)))
      (TypeExpr.argumentsText ts ++ after) fun _ leaves => Cut leaves (namePieces lead space name) := by
    unfold Rules.typeReference
    refine peek_bind hs fun line place => ?_
    rw [if_pos (by simp only [isTypeName, first.isOneOfWords words_typeName]; rfl)]
    exact typeName space name hlead hname
  unfold Rules.typeAtom
  refine peek_bind hs fun line place => ?_
  dsimp only
  unfold Rules.wordType
  refine peek_bind hs fun line place => ?_
  simp only [first.isKeyword, words_type, first.isOneOfWords words_builtIn, Bool.false_eq_true, if_false]
  refine hreference.bind fun _ names hnames => ?_
  refine (typeArguments? hts hbound hangle).bind fun _ arguments harguments => pure ⟨rfl, ?_⟩
  rw [List.append_nil]
  exact hnames.append harguments

theorem typeOperand (t : TypeExpr) (hts : ∀ u ∈ t.arguments, ReadsType r u)
    (hbound : t.text.length < r.bound) (hlead : Blank lead) (hafter : ClosesType after) :
    Reads (r.typeOperand e) (lead ++ (t.text ++ after)) after fun _ leaves => Cut leaves (t.pieces lead) := by
  obtain ⟨first, rest, hs, -⟩ := t.starts hlead hafter.closesName
  have hprefix : Reads
      (iterate (fun _ => do
        let t ← peek
        if isKeyword "keyof" t then
          Parse.skip
          return some true
        else if startsMark '?' t then
          Parse.cut '?'
          return some true
        else if isTypeOperator t then
          r.skipTypeOperators
          return some false
        else return none) r.bound false)
      (lead ++ (t.text ++ after)) (lead ++ (t.text ++ after))
      fun prefixed leaves => leaves = [] ∧ prefixed = false := by
    refine iterate_last (Nat.zero_lt_of_lt hbound) (peek_bind hs fun line place => ?_)
    simp only [first.isKeyword, words_type, startsMark_word, isTypeOperator, Bool.or_self,
      Bool.false_and, Bool.false_eq_true, if_false]
    exact pure ⟨rfl, rfl, trivial⟩
  obtain ⟨hcount, hbrackets, -⟩ := t.lengths_lt
  obtain ⟨space, name, ts, n⟩ := t
  have hatom : Reads (r.typeAtom e)
      (lead ++ (asWritten space name ++ (TypeExpr.argumentsText ts ++ (TypeExpr.pairs n ++ after))))
      (TypeExpr.pairs n ++ after) _ :=
    typeAtom space name hts (Nat.lt_trans hcount hbound) hlead (TypeExpr.closesName_pairs hafter.closesName n)
      (hafter.next_pairs n)
  unfold Rules.typeOperand
  refine hprefix.bind_still ?_
  rintro _ rfl
  rw [TypeExpr.text_mk, TypeExpr.pieces_mk, List.append_assoc, List.append_assoc]
  refine hatom.bind fun suffix leaves h => ?_
  obtain ⟨rfl, hcut⟩ := h
  refine (typeSuffixes n hafter (Nat.lt_trans hbrackets hbound)).bind fun _ pairs hpairs => pure ?_
  rw [List.append_nil, ← List.append_assoc]
  exact hcut.append hpairs

/-- A written type whose type arguments the rules read is read by the rule for types. -/
theorem typeRule (t : TypeExpr) (hts : ∀ u ∈ t.arguments, ReadsType r u)
    (hbound : t.text.length < r.bound) (hlead : Blank lead) (hafter : ClosesType after) :
    Reads (r.typeRule e) (lead ++ (t.text ++ after)) after fun _ leaves => Cut leaves (t.pieces lead) := by
  obtain ⟨first, rest, hs, -⟩ := t.starts hlead hafter.closesName
  have hnone : Reads r.skipTypeOperators (lead ++ (t.text ++ after)) (lead ++ (t.text ++ after))
      fun _ leaves => leaves = [] ∧ True := by
    have hstop : Next (fun t => !isTypeOperator t) (lead ++ (t.text ++ after)) true :=
      ⟨_, _, _, _, hs, fun _ _ => rfl⟩
    refine (discard (manyWhile (.stop hstop) (Nat.zero_lt_of_lt hbound))).mono fun _ leaves h => ?_
    obtain ⟨_, heach⟩ := h
    cases heach
    exact ⟨rfl, trivial⟩
  unfold Rules.typeRule
  refine hnone.bind_still fun _ _ => ?_
  refine (typeOperand t hts hbound hlead hafter).bind fun suffix leaves hcut => ?_
  obtain ⟨lead', c, more, rest', hs', hc⟩ := hafter.next
  have hoperator : c ≠ '|' ∧ c ≠ '&' := by
    constructor <;> rintro rfl <;> exact absurd hc (by decide)
  refine (discard (iterate_last (Q := fun _ leaves => leaves = []) (Nat.zero_lt_of_lt hbound) ?_)).mono
    fun _ more h => ?_
  · refine peek_bind hs' fun line place => lineEnds_bind hs' (hafter.stays e) ?_
    have hgo : isTypeOperator ⟨.mark, lead', c :: more, line, place⟩ = false := by
      simp [isTypeOperator, hoperator]
    simp only [hgo, isKeyword_mark, Bool.false_and, Bool.or_false, Bool.false_eq_true, if_false]
    split <;> exact pure ⟨rfl, rfl⟩
  · obtain ⟨_, rfl⟩ := h
    rwa [List.append_nil]

/-- Deep enough, every written type is read. -/
theorem readsType {bound depth : Nat} (t : TypeExpr) (hbound : t.text.length < bound)
    (hdepth : t.text.length < depth) : ReadsType ⟨bound, readGoal bound depth⟩ t := by
  induction depth generalizing t with
  | zero => omega
  | succ depth ih =>
    intro e lead after hlead hafter
    obtain ⟨-, -, hless⟩ := t.lengths_lt
    refine typeRule (r := ⟨bound, readGoal bound depth⟩) t (fun u hu => ?_) hbound hlead hafter
    have hu := hless u hu
    exact ih u (by omega) (by omega)

/-! ## Annotations -/

theorem ofAnnotation_pieces (t : TypeExpr) : ofAnnotation (t.pieces []) = t.pieces [] := by
  have hconst : TypeSource.text (t.pieces []) ≠ "const".toList := by
    rw [t.text_pieces]
    exact t.text_ne (by simp [languageWords, reservedWords]) (by decide)
  unfold ofAnnotation
  rw [if_neg hconst]

theorem annotatedType {t : TypeExpr} (ht : ReadsType r t) (hlead : Blank lead) (hafter : ClosesType after) :
    Reads (some <$> ofAnnotation <$> Parse.typeSource r.type) (lead ++ (t.text ++ after)) after
      fun a _ => a = some (t.pieces []) := by
  obtain ⟨ps, hps⟩ := t.pieces_cons
  have hread := ht .never lead after hlead hafter
  rw [hps lead] at hread
  refine map (map ((typeSource hread).mono fun a _ ha => ?_))
  rw [ha, ← hps [], ofAnnotation_pieces]

/-- No predicate begins where a written type does. -/
theorem startsPredicate (t : TypeExpr) (hlead : Blank lead) (hafter : ClosesTypeName after) :
    Reads (startsPredicate e) (lead ++ (t.text ++ after)) (lead ++ (t.text ++ after))
      fun b leaves => leaves = [] ∧ b = false := by
  obtain ⟨first, rest, hs, lead', mark, rest', hs'⟩ := t.starts hlead hafter
  have hsubject : Reads
      (subject fun t => isTypeName t || isOneOfWords ("this" :: "unique" :: builtInTypes) t)
      (lead ++ (t.text ++ after)) rest fun _ _ => True := by
    have htest (line place : Nat) : isTypeName ⟨.word, lead, first.text, line, place⟩ = true := by
      rw [isTypeName, first.isOneOfWords words_typeName]
      rfl
    unfold Rules.subject
    refine (expect hs (fun line place => by rw [htest, Bool.true_or]) (by decide)).bind fun token _ h => ?_
    obtain ⟨⟨line, place, rfl⟩, -⟩ := h
    simp only [first.isKeyword, words_type, Bool.false_eq_true, if_false]
    exact pure trivial
  unfold Rules.startsPredicate
  refine look_still (?_ : Reads _ _ rest fun b _ => b = false)
  refine (attempt hsubject).bind fun found _ _ => peek_bind hs' fun line place => ?_
  refine (lineEnds_still e).bind_still fun ends _ => pure ?_
  simp

theorem returned {t : TypeExpr} (ht : ReadsType r t) (hlead : Blank lead) (hafter : ClosesType after) :
    Reads (r.returned e) (lead ++ (t.text ++ after)) after fun predicate leaves =>
      predicate = false ∧ Cut leaves (t.pieces lead) := by
  obtain ⟨first, rest, hs, -⟩ := t.starts hlead hafter.closesName
  have hasserts : Next (isKeyword "asserts") (lead ++ (t.text ++ after)) false :=
    ⟨_, _, _, _, hs, fun _ _ => first.isKeyword (by simp [languageWords, contextualWords])⟩
  unfold Rules.returned
  refine accept_false_bind hasserts ?_
  refine (startsPredicate t hlead hafter.closesName).bind_still ?_
  rintro _ rfl
  refine (ht e lead after hlead hafter).bind fun _ leaves hcut => pure ⟨rfl, ?_⟩
  rwa [List.append_nil]

theorem returnType? {type : Option TypeExpr} (htype : ∀ t, type = some t → ReadsType r t)
    (rest : Text) :
    Reads (r.returnType? e) (typeText type ++ ' ' :: '{' :: '}' :: rest) (' ' :: '{' :: '}' :: rest)
      fun a _ => a = type.map (·.pieces []) := by
  unfold Rules.returnType?
  cases type with
  | none =>
    have hbrace : Starts (" ".toList ++ '{' :: '}' :: rest) .mark " ".toList ['{'] ('}' :: rest) :=
      .before blank_space (by decide) (by decide) rest
    refine peek_bind hbrace fun line place => ?_
    rw [if_pos (by simp)]
    exact pure rfl
  | some t =>
    obtain ⟨ps, hps⟩ := t.pieces_cons
    have hcolon : Starts (':' :: ' ' :: (t.text ++ ' ' :: '{' :: '}' :: rest)) .mark [] [':'] _ :=
      .lone blank_nil (by decide) _
    have htext : typeText (some t) ++ ' ' :: '{' :: '}' :: rest
        = ':' :: ' ' :: (t.text ++ ' ' :: '{' :: '}' :: rest) := rfl
    have hreturned := returned (e := e) (htype t rfl) blank_space (ClosesType.body rest)
    rw [htext]
    refine peek_bind hcolon fun line place => ?_
    rw [if_neg (by simp)]
    refine peek_bind hcolon fun line place => (mark (m := ":") hcolon).bind fun _ _ _ => ?_
    intro c hc
    obtain ⟨predicate, c', leaves, hok, hstands, hmoves, htext, rfl, hcut⟩ := hreturned c hc
    refine ⟨some (t.pieces []), c', leaves, ?_, hstands, hmoves, htext, rfl⟩
    rw [hps " ".toList] at hcut
    rw [bind_ok (rfl : Parse.peek c = .ok (c.next, c)), bind_ok hok]
    dsimp only
    rw [if_neg (by simp), bind_ok (leavesSince hc hmoves)]
    cases leaves with
    | nil => nomatch hcut
    | cons first more =>
      dsimp only
      rw [if_neg (by simp), hcut.piecesFrom [], ← hps [], ofAnnotation_pieces]
      rfl

end Reads

end NestClient.TypeScript
