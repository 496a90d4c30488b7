import NestClient.Proofs.Extract.TypeTree
import NestClient.Proofs.TypeScript.SoundRules

/-! The types that are read from a source stand in it, and no two names in one of them touch.

* `Lexed.exists_cut`: the pieces of tokens have their names apart.
* `Yields`: what is known of the result of a reader at a sound cursor.
* `parse_types`: so it is with every type of a source. -/

namespace NestClient.TypeScript

open Parse

-- the instance of a rule is put together from one for each of its steps
set_option synthInstance.maxSize 40000

/-! ## Names apart from each other -/

/-- Between two names of the type stands a character that no name has, so that they are two. -/
def TypeSource.NamesApart (t : TypeSource) : Prop :=
  ∀ p between q, p :: (between ++ [q]) <:+: t → p.isName = true → q.isName = true →
    ∃ c ∈ TypeSource.text between, isNameChar c = false

theorem TypeSource.NamesApart.of_infix {s t : TypeSource} (h : t.NamesApart) (hs : s <:+: t) :
    s.NamesApart := fun p between q hin => h p between q (hin.trans hs)

theorem TypeSource.text_append (s t : TypeSource) : text (s ++ t) = text s ++ text t :=
  List.flatMap_append

/-- In front of a text, the names of a type are whole words. -/
inductive TypeSource.WholeNames (behind : Text) : TypeSource → Prop
  | nil : WholeNames behind []
  | plain {written : Text} {more : TypeSource} (hmore : WholeNames behind more) :
      WholeNames behind (.plain written :: more)
  | name {p : TypePiece} {more : TypeSource} (hword : Lexer.Word p.source (text more ++ behind))
      (hmore : WholeNames behind more) : WholeNames behind (p :: more)

/-- What holds of the ASCII characters of names holds of all their characters. -/
theorem of_isNameChar {f : Char → Bool}
    (h : ∀ n < 128, isNameChar (Char.ofNat n) = true → f (Char.ofNat n) = true) {c : Char}
    (hc : isNameChar c = true) : f c = true := by
  have hrange := toNat_of_isNameChar hc
  have hchar := h c.toNat (by omega)
  rw [Char.ofNat_toNat] at hchar
  exact hchar hc

theorem isWordChar_of_isNameChar {c : Char} (h : isNameChar c = true) : isWordChar c = true :=
  of_isNameChar (by decide +kernel) h

theorem isWordStart_of_isNameStart {c : Char} (h : isNameStart c = true) : isWordStart c = true := by
  have hstart : (!isNameStart c || isWordStart c) = true :=
    of_isNameChar (f := fun c => !isNameStart c || isWordStart c) (by decide +kernel)
      (isNameChar_of_isNameStart h)
  rwa [h] at hstart

namespace TypeSource.WholeNames

variable {behind : Text} {s t : TypeSource}

theorem of_append (h : WholeNames behind (s ++ t)) : WholeNames behind t := by
  induction s with
  | nil => exact h
  | cons p s ih =>
    rw [List.cons_append] at h
    generalize s ++ t = rest at h ih
    cases h with
    | plain hmore => exact ih hmore
    | name _ hmore => exact ih hmore

theorem word {p : TypePiece} (h : WholeNames behind (p :: t)) (hp : p.isName = true) :
    Lexer.Word p.source (text t ++ behind) := by
  cases h with
  | plain => simp [TypePiece.isName] at hp
  | name hword => exact hword

theorem namesApart (h : WholeNames behind t) : t.NamesApart := by
  rintro p between q ⟨before, after, rfl⟩ hp hq
  rw [List.append_assoc, List.cons_append, List.append_assoc] at h
  have hfirst := h.of_append
  have hstops := (hfirst.word hp).stops
  rw [← List.cons_append] at hfirst
  have hstarts := (hfirst.of_append.word hq).starts
  rw [text_append] at hstops
  cases hbetween : text between with
  | nil =>
    refine absurd (hbetween ▸ hstops) (Lexer.StartsWord.not_stopsWord ?_)
    rw [List.nil_append, List.singleton_append, text, List.flatMap_cons, List.append_assoc]
    exact hstarts
  | cons c rest =>
    refine ⟨c, List.mem_cons_self, ?_⟩
    rw [hbetween] at hstops
    have hword : isWordChar c = false := hstops.isWordChar
    rw [Bool.eq_false_iff]
    intro hc
    rw [isWordChar_of_isNameChar hc] at hword
    cases hword

end TypeSource.WholeNames

/-! ## Pieces of tokens -/

theorem text_leaf (leaf : Leaf) (pieces : TypeSource) :
    TypeSource.text (.plain leaf.token.trivia :: piecesFrom.piece leaf :: pieces)
      = leaf.source ++ TypeSource.text pieces := by
  have hpiece : (piecesFrom.piece leaf).source = leaf.token.text := by
    rw [piecesFrom.piece]
    split <;> rfl
  rw [TypeSource.text, List.flatMap_cons, List.flatMap_cons, hpiece, ← List.append_assoc]
  rfl

/-- In front of a text, tokens make pieces with whole names, which have their text. -/
theorem Lexed.exists_cut {behind : Text} {leaves : List Leaf} (h : Lexed behind leaves) :
    ∃ pieces, Cut leaves pieces ∧ TypeSource.WholeNames behind pieces ∧
      TypeSource.text pieces = leavesText leaves := by
  induction hn : leaves.length using Nat.strongRecOn generalizing leaves with
  | ind n ih =>
    cases h with
    | nil => exact ⟨[], .nil, .nil, rfl⟩
    | @plain leaf more hrole hmore =>
      obtain ⟨pieces, hcut, hwhole, htext⟩ := ih more.length (by simp [← hn]) hmore rfl
      refine ⟨_, .leaf (by simp [hrole]) hcut, .plain ?_, by rw [text_leaf, htext]; rfl⟩
      rw [piecesFrom.piece, if_neg (by simp [hrole])]
      exact .plain hwhole
    | @name leaf more hrole hword hmore =>
      obtain ⟨pieces, hcut, hwhole, htext⟩ := ih more.length (by simp [← hn]) hmore rfl
      refine ⟨_, .leaf hrole hcut, .plain ?_, by rw [text_leaf, htext]; rfl⟩
      rw [piecesFrom.piece]
      split
      · exact .name (htext ▸ hword) hwhole
      · exact .plain hwhole
    | @space leaf dot member more hrole hword hmember hmore =>
      have hmore : Lexed behind ([dot, member] ++ more) := hmore
      have hmore : Lexed behind more := hmore.of_append
      obtain ⟨pieces, hcut, hwhole, htext⟩ := ih more.length (by simp [← hn]; omega) hmore rfl
      have hwritten : leaf.token.text ++ leavesText (dot :: member :: more)
          = leaf.token.text ++ dot.token.trivia ++ dot.token.text ++ member.token.trivia
            ++ member.token.text ++ leavesText more := by
        simp [leavesText, Leaf.source]
      refine ⟨_, .qualified hrole hcut, .plain (.name ⟨?_, htext ▸ hmember.stops⟩ hwhole), ?_⟩
      · have hstarts := hword.starts
        rw [← List.append_assoc, hwritten, ← htext, List.append_assoc] at hstarts
        exact hstarts
      · have hsource : leavesText (leaf :: dot :: member :: more)
            = leaf.token.trivia ++ (leaf.token.text ++ leavesText (dot :: member :: more)) :=
          List.append_assoc ..
        rw [hsource, hwritten, ← htext]
        rfl

/-! ## Types in a source -/

/-- A type that stands in a source, with its names apart from each other. -/
structure TypeSource.StandsIn (source : Text) (t : TypeSource) : Prop where
  text : t.text <:+: source
  apart : t.NamesApart

variable {source : Text}

theorem TypeSource.standsIn_nil : StandsIn source [] :=
  ⟨List.nil_infix, fun p between q h => by simp at h⟩

theorem TypeSource.StandsIn.ofAnnotation {t : TypeSource} (h : t.StandsIn source) :
    (Rules.ofAnnotation t).StandsIn source := by
  rw [Rules.ofAnnotation]
  split
  · exact standsIn_nil
  · exact h

/-- The pieces of the tokens read last. -/
theorem Cursor.Sound.standsIn {c after : Cursor} {place : Nat} {first : Leaf} {more : List Leaf}
    (h : c.Sound source) (hread : leavesSince place c = .ok (first :: more, after)) :
    (piecesFrom [] first more).StandsIn source := by
  have hleaves : first :: more = (c.read.takeWhile fun leaf => place ≤ leaf.token.place).reverse :=
    (Prod.mk.inj (Except.ok.inj hread)).1.symm
  have hcut : c.read.reverse
      = (c.read.dropWhile fun leaf => place ≤ leaf.token.place).reverse ++ first :: more := by
    rw [hleaves, ← List.reverse_append, List.takeWhile_append_dropWhile]
  have hlexed := h.lexed
  have htext := h.text
  rw [hcut] at hlexed htext
  obtain ⟨pieces, hpieces, hwhole, hpiecesText⟩ := hlexed.of_append.exists_cut
  -- the blanks before the first token are left out
  obtain ⟨lead, rest, rfl⟩ : ∃ lead rest, pieces = .plain lead :: rest := by
    cases hpieces <;> exact ⟨_, _, rfl⟩
  have hrest : TypeSource.WholeNames c.unread rest := by
    cases hwhole <;> assumption
  rw [hpieces.piecesFrom []]
  refine ⟨?_, (TypeSource.WholeNames.plain hrest).namesApart⟩
  rw [← htext, leavesText, List.flatMap_append]
  refine List.IsInfix.trans ?_ (List.prefix_append _ _).isInfix
  refine List.IsInfix.trans ?_ (List.suffix_append _ _).isInfix
  exact ⟨lead, [], by rw [List.append_nil]; exact hpiecesText⟩

/-! ## Results -/

def Every {α : Type} (Q : α → Prop) (as : List α) : Prop := ∀ a ∈ as, Q a

theorem Every.singleton {α : Type} {Q : α → Prop} {a : α} (h : Q a) : Every Q [a] :=
  List.forall_mem_singleton.2 h

theorem Every.append {α : Type} {Q : α → Prop} {as more : List α} (h : Every Q as) (hmore : Every Q more) :
    Every Q (as ++ more) :=
  List.forall_mem_append.2 ⟨h, hmore⟩

/-- The result, if there is one, is of a kind. -/
def Held {α : Type} (Q : α → Prop) (o : Option α) : Prop := ∀ a ∈ o, Q a

theorem Held.some {α : Type} {Q : α → Prop} {a : α} (h : Q a) : Held Q (some a) :=
  fun _ hb => Option.some.inj hb ▸ h

theorem Held.none {α : Type} {Q : α → Prop} : Held Q none := fun _ hb => nomatch hb

/-- At a sound cursor, the reader gives results of this kind. -/
class Yields {α : Type} (source : Text) (p : Parse α) (Q : α → Prop) : Prop where
  result : ∀ {c after : Cursor} {a : α}, c.Sound source → p c = .ok (a, after) → Q a

namespace Yields

variable {α β : Type} {p : Parse α} {f : α → Parse β} {P : α → Prop} {Q : β → Prop}

theorem pure {b : β} (h : Q b) : Yields source (Pure.pure b) Q where
  result _ hread := by
    cases hread
    exact h

theorem mono {Q' : β → Prop} {p : Parse β} (h : Yields source p Q) (hQ : ∀ b, Q b → Q' b) :
    Yields source p Q' where
  result hc hread := hQ _ (h.result hc hread)

theorem bind [Keeps p] (hp : Yields source p P) (hf : ∀ a, P a → Yields source (f a) Q) :
    Yields source (p >>= f) Q where
  result hc h := by
    obtain ⟨a, mid, hread, hrest⟩ := bind_eq_ok h
    exact (hf a (hp.result hc hread)).result (Keeps.sound hc hread) hrest

/-- A step before the result is known. -/
theorem step [Keeps p] (hf : ∀ a, Yields source (f a) Q) : Yields source (p >>= f) Q :=
  bind (P := fun _ => True) ⟨fun _ _ => trivial⟩ fun a _ => hf a

theorem map {g : α → β} (hp : Yields source p fun a => Q (g a)) : Yields source (g <$> p) Q where
  result hc h := by
    obtain ⟨a, hread, rfl⟩ := map_eq_ok h
    exact hp.result hc hread

instance [Keeps p] [hf : ∀ a, Yields source (f a) Q] : Yields source (p >>= f) Q := step hf

theorem ite {φ : Prop} [Decidable φ] {p q : Parse β} (hp : Yields source p Q) (hq : Yields source q Q) :
    Yields source (if φ then p else q) Q := by
  split
  · exact hp
  · exact hq

instance {φ : Prop} [Decidable φ] {p q : Parse β} [hp : Yields source p Q] [hq : Yields source q Q] :
    Yields source (if φ then p else q) Q := .ite hp hq

instance {p q : Parse β} [hp : Yields source p Q] [hq : Yields source q Q] :
    Yields source (orElse p q) Q where
  result {c after b} hc h := by
    rcases orElse_eq_ok h with hread | hread
    · exact hp.result hc hread
    · exact hq.result hc hread

instance : Yields source (stuck : Parse β) Q where
  result _ hread := by cases hread

instance : Yields source (stuck >>= f) Q where
  result _ hread := by cases hread

instance [hp : Yields source p P] : Yields source (some <$> p) (Held P) :=
  .map (.mono hp fun _ => .some)

instance : Yields source (Pure.pure none) (Held P) := .pure .none

instance {a : α} [ha : Yields source (Pure.pure a) P] : Yields source (Pure.pure (some a)) (Held P) where
  result hc h := by
    cases h
    exact .some (ha.result hc rfl)

instance manyUntil [Keeps p] [hp : Yields source p P] (bound : Nat) (stop : Token → Bool) :
    Yields source (manyUntil bound stop p) (Every P) := by
  have hiterate (n : Nat) (items : List α) (hitems : Every P items) :
      Yields source (iterate (fun items => do
        if stop (← peek) then return none
        else return some ((← p) :: items)) n items) (Every P) := by
    induction n generalizing items with
    | zero => exact inferInstanceAs (Yields source stuck _)
    | succ n ih =>
      rw [iterate]
      refine bind (P := Held (Every P)) ?_ fun next hnext => ?_
      · refine step fun t => ?_
        split
        · infer_instance
        · exact bind hp fun a ha => .pure (.some (List.forall_mem_cons.2 ⟨ha, hitems⟩))
      · cases next with
        | none => exact .pure hitems
        | some items => exact ih items (hnext items rfl)
  unfold Parse.manyUntil
  exact bind (hiterate bound [] (by simp [Every])) fun items hitems => .pure (by simpa [Every] using hitems)

instance commaList [Keeps p] [hp : Yields source p P] (bound : Nat) (close : Char) :
    Yields source (commaList bound close p) (Every P) := by
  have hitem : Yields source (do
      let a ← p
      if !(← acceptMark ",") then
        if !startsMark close (← peek) then Parse.stuck
      return a) P := by
    refine bind hp fun a ha => ?_
    have hlast : Yields source (Pure.pure a) P := .pure ha
    infer_instance
  unfold Parse.commaList
  exact bind inferInstance fun items hitems => step fun _ => .pure hitems

theorem leavesSince (place : Nat) : Yields source (leavesSince place) fun leaves =>
    ∀ first more, leaves = first :: more → (piecesFrom [] first more).StandsIn source where
  result hc h := by
    rintro first more rfl
    exact hc.standsIn h

theorem typeSource {p : Parse Unit} [Keeps p] : Yields source (typeSource p) (·.StandsIn source) := by
  unfold Parse.typeSource
  refine .step fun start => .step fun _ => .bind (.leavesSince _) fun leaves hleaves => ?_
  split
  · exact .pure TypeSource.standsIn_nil
  next first more => exact .pure (hleaves first more rfl)

end Yields

def Member.types : Member → List TypeSource
  | method m => m.types
  | decorator _ | comment | other => []

/-- The types of a member stand in a source. -/
def Member.StandsIn (source : Text) (m : Member) : Prop := ∀ t ∈ m.types, t.StandsIn source

instance : Yields source (Pure.pure Member.other) (Member.StandsIn source) :=
  .pure fun _ h => by simp [Member.types] at h

theorem ClassNode.types_eq (c : ClassNode) : c.types = c.members.flatMap Member.types := by
  refine List.flatMap_congr fun member _ => ?_
  cases member <;> rfl

def Statement.StandsIn (source : Text) (s : Statement) : Prop := ∀ t ∈ s.types, t.StandsIn source

instance : Yields source (Pure.pure Statement.other) (Statement.StandsIn source) :=
  .pure fun _ h => by simp [Statement.types] at h

instance (i : ImportNode) : Yields source (Pure.pure (.importing i)) (Statement.StandsIn source) :=
  .pure fun _ h => by simp [Statement.types] at h

instance (declared : List (Text × Option Expr)) :
    Yields source (Pure.pure (.bindings declared)) (Statement.StandsIn source) :=
  .pure fun _ h => by simp [Statement.types] at h

def ParameterNode.StandsIn (source : Text) (p : ParameterNode) : Prop :=
  Held (TypeSource.StandsIn source) p.type

/-! ## Methods -/

namespace Rules

variable {r : Rules} [r.Keeps]

instance : Yields source r.parameter (ParameterNode.StandsIn source) := by
  unfold parameter
  dsimp only
  refine .step fun decorators => .step fun _ => .step fun pattern => .step fun question =>
    .step fun typed => ?_
  split
  · refine .bind (P := Held (TypeSource.StandsIn source))
      (.map (.map (.mono .typeSource fun t ht => .some ht.ofAnnotation)))
      fun type htype => ?_
    split <;> exact .step fun initial => .pure htype
  · refine .bind (P := Held (TypeSource.StandsIn source)) inferInstance fun type htype => ?_
    split <;> exact .step fun initial => .pure htype

instance : Yields source r.parameters (Every (ParameterNode.StandsIn source)) := by
  unfold parameters
  infer_instance

theorem yields_returnType (e : Ending) :
    Yields source (r.returnType? e) (Held (TypeSource.StandsIn source)) := by
  unfold returnType?
  refine .step fun t => ?_
  split
  · infer_instance
  · refine .step fun colon => .step fun _ => .step fun start => .step fun predicate =>
      .bind (.leavesSince _) fun leaves hleaves => ?_
    split
    · exact .pure (.some TypeSource.standsIn_nil)
    next first more =>
      have hsource := hleaves first more rfl
      refine .pure fun t ht => ?_
      obtain rfl := Option.some.inj ht
      split
      · exact hsource
      · exact hsource.ofAnnotation

theorem yields_signature (e : Ending) : Yields source (r.signature e) fun s =>
    Every (ParameterNode.StandsIn source) s.1 ∧ Held (TypeSource.StandsIn source) s.2 := by
  unfold signature
  exact .step fun _ => .bind inferInstance fun parameters hparameters =>
    .bind (yields_returnType e) fun returned hreturned => .pure ⟨hparameters, hreturned⟩

/-! ## Classes -/

instance (decorated : Bool) (words : List Text) (name : Text) (line : Nat) :
    Yields source (r.methodRest decorated words name line) (Member.StandsIn source) := by
  unfold methodRest
  dsimp only
  refine .bind (yields_signature _) fun s ⟨hparameters, hreturned⟩ => .step fun t => .step fun ends => ?_
  split
  · refine .step fun _ => .step fun _ => .pure fun t ht => ?_
    rcases List.mem_append.1 ht with ht | ht
    · obtain ⟨p, hp, ht⟩ := List.mem_filterMap.1 ht
      exact hparameters p hp t ht
    · exact hreturned t (Option.mem_toList.1 ht)
  · infer_instance

instance (words : List Text) : Yields source (r.fieldRest words) (Member.StandsIn source) := by
  unfold fieldRest
  dsimp only
  infer_instance

instance (decorated : Bool) : Yields source (r.memberRule decorated) (Member.StandsIn source) := by
  unfold memberRule
  dsimp only
  infer_instance

theorem Member.standsIn_of_types_eq_nil {m : Member} (h : m.types = []) : m.StandsIn source := by
  simp [Member.StandsIn, h]

instance : Yields source comments (Every (Member.StandsIn source)) := by
  unfold comments
  refine .step fun t => .pure fun m hm => ?_
  obtain rfl := List.eq_of_mem_replicate hm
  exact Member.standsIn_of_types_eq_nil rfl

instance : Yields source r.memberDecorators
    (Every fun d => Every (Member.StandsIn source) d.2) := by
  have hone : Yields source (do return (← r.decorator, ← comments))
      fun d => Every (Member.StandsIn source) d.2 :=
    .step fun d => .bind (P := Every (Member.StandsIn source)) inferInstance fun behind h => .pure h
  unfold memberDecorators Parse.manyWhile
  infer_instance

instance : Yields source r.decoratedMember (Every (Member.StandsIn source)) := by
  unfold decoratedMember
  refine .bind (P := Every fun d => Every (Member.StandsIn source) d.2) inferInstance
    fun decorators hdecorators => .bind (P := Member.StandsIn source) inferInstance
    fun member hmember => ?_
  split
  · refine .pure (Every.append (fun m hm => ?_) (.singleton hmember))
    obtain ⟨⟨d, behind⟩, hd, hm⟩ := List.mem_flatMap.1 hm
    rcases List.mem_cons.1 hm with rfl | hm
    · exact Member.standsIn_of_types_eq_nil rfl
    · exact hdecorators _ hd m hm
  · exact .pure (.singleton hmember)

instance : Yields source r.members (Every (Member.StandsIn source)) := by
  unfold members
  dsimp only
  refine .bind (P := Every (Member.StandsIn source)) inferInstance fun before hbefore =>
    .step fun empty => ?_
  split
  · exact .pure hbefore
  · refine .step fun t => .step fun initializes => ?_
    split
    · exact .step fun _ => .step fun _ =>
        .pure (hbefore.append (.singleton (Member.standsIn_of_types_eq_nil rfl)))
    · exact .bind (P := Every (Member.StandsIn source)) inferInstance fun member hmember =>
        .pure (hbefore.append hmember)

instance : Yields source r.classBody (Every (Member.StandsIn source)) := by
  unfold classBody
  refine .step fun _ => .bind (P := Every (Every (Member.StandsIn source))) inferInstance
    fun members hmembers => .bind (P := Every (Member.StandsIn source)) inferInstance
    fun behind hbehind => .step fun _ => .pure (Every.append (fun m hm => ?_) hbehind)
  obtain ⟨ms, hms, hm⟩ := List.mem_flatten.1 hm
  exact hmembers ms hms m hm

instance : Yields source r.classRest (Every (Member.StandsIn source)) := by
  unfold classRest
  infer_instance

theorem yields_classDeclaration (outer decorators : List DecoratorNode) (line : Nat) :
    Yields source (r.classDeclaration decorators line) fun c =>
      (Statement.classDecl outer c).StandsIn source := by
  unfold classDeclaration
  refine .step fun _ => .step fun _ => .step fun name => .bind (P := Every (Member.StandsIn source))
    inferInstance fun members hmembers => .pure fun t ht => ?_
  rw [Statement.types, ClassNode.types_eq] at ht
  obtain ⟨m, hm, ht⟩ := List.mem_flatMap.1 ht
  exact hmembers m hm t ht

/-! ## Statements -/

instance : Yields source r.declarations (Statement.StandsIn source) := by
  unfold declarations
  infer_instance

instance (outer : List DecoratorNode) (orExpression : Bool) :
    Yields source (r.declarationProper? outer orExpression) (Held (Statement.StandsIn source)) := by
  unfold declarationProper?
  dsimp only
  exact .step fun start => .step fun behind => .ite
    (.step fun own => .bind (yields_classDeclaration outer _ _) fun c hc => .pure (.some hc))
    inferInstance

instance (outer : List DecoratorNode) (orExpression : Bool) :
    Yields source (r.declaration? outer orExpression) (Held (Statement.StandsIn source)) := by
  unfold declaration?
  infer_instance

instance (modified : Bool) : Yields source (r.importBody modified) (Statement.StandsIn source) := by
  unfold importBody
  infer_instance

instance : Yields source r.importStatement (Statement.StandsIn source) := by
  unfold importStatement
  infer_instance

instance (outer : List DecoratorNode) : Yields source (r.exported outer) (Statement.StandsIn source) := by
  unfold exported
  refine .step fun isDefault => .bind (P := Held (Statement.StandsIn source)) inferInstance fun s hs => ?_
  split
  · exact .pure (hs _ rfl)
  · infer_instance

instance : Yields source r.exportRest (Statement.StandsIn source) := by
  unfold exportRest
  infer_instance

instance : Yields source r.expressionStatement (Statement.StandsIn source) := by
  unfold expressionStatement
  infer_instance

instance : Yields source r.plainStatement (Statement.StandsIn source) := by
  unfold plainStatement
  infer_instance

instance : Yields source r.blockOrObject (Statement.StandsIn source) := by
  unfold blockOrObject
  infer_instance

instance {p : Parse Statement} [hp : Yields source p (Statement.StandsIn source)] :
    Yields source (r.declarationOr p) (Statement.StandsIn source) where
  result hc h := by
    obtain ⟨found, mid, hfound, h⟩ := declarationOr_eq_ok h
    have hdeclared : Held (Statement.StandsIn source) found := Yields.result hc hfound
    rcases h with h | h | ⟨rfl, -⟩
    · exact hp.result (Parse.Keeps.sound hc hfound) h
    · exact hp.result hc h
    · exact hdeclared _ rfl

instance : Yields source r.decorated (Statement.StandsIn source) := by
  unfold decorated
  infer_instance

instance : Yields source r.statementRule (Statement.StandsIn source) := by
  unfold statementRule
  infer_instance

end Rules

/-! ## Files -/

theorem yields_readGoal (bound depth : Nat) :
    Yields source (readGoal bound depth .statement) (Statement.StandsIn source) := by
  cases depth with
  | zero => exact inferInstanceAs (Yields source stuck _)
  | succ depth =>
    have hrules : Rules.Keeps ⟨bound, readGoal bound depth⟩ := ⟨keeps_readGoal bound depth⟩
    exact inferInstanceAs (Yields source (Rules.statementRule _) _)

theorem standsIn_statementsFrom {read : Parse Statement} [Keeps read]
    (hread : Yields source read (Statement.StandsIn source)) {bound : Nat} {c : Cursor}
    (hc : c.Sound source) {statements : List Statement} (h : statementsFrom read bound c = .ok statements) :
    Every (Statement.StandsIn source) statements := by
  induction bound generalizing c statements with
  | zero => cases h
  | succ bound ih =>
    rw [statementsFrom] at h
    split at h
    · cases h
      simp [Every]
    · cases hstatement : read c with
      | error s =>
        rw [hstatement] at h
        cases h
      | ok result =>
        rw [hstatement] at h
        dsimp only at h
        cases hmore : statementsFrom read bound result.2 with
        | error line =>
          rw [hmore] at h
          cases h
        | ok more =>
          rw [hmore] at h
          cases h
          exact List.forall_mem_cons.2
            ⟨hread.result hc hstatement, ih (Keeps.sound hc hstatement) hmore⟩

/-- The types of a source that is read stand in it, with their names apart from each other. -/
theorem parse_types {statements : List Statement} (h : parse source = .ok statements) :
    ∀ t ∈ statements.flatMap Statement.types, t.StandsIn source := by
  have hkeeps := keeps_readGoal (4 * source.length + 16) (4 * source.length + 16) .statement
  intro t ht
  obtain ⟨s, hs, ht⟩ := List.mem_flatMap.1 ht
  exact standsIn_statementsFrom (yields_readGoal _ _) (Cursor.sound_start source) h s hs t ht

end NestClient.TypeScript
