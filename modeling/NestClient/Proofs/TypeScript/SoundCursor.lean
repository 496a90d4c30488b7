import NestClient.Proofs.TypeScript.Reads

/-! What is true of every cursor that reading leads to: the tokens read and the text still to read make up
the source, and a token in the role of a name is a word that is as long as it can be.

* `Cursor.Sound`: this, and that the next token is the first one of what is still to read.
* `Cursor.Sound.take`: it is so again when a token has been read.
* `Parse.Keeps`: a reader that leads from sound cursors to sound ones, with a rule for each way to put
  readers together. -/

namespace NestClient.TypeScript

/-! ## Words -/

namespace Lexer

/-- No word goes on in front of this text. -/
def StopsWord (t : Text) : Prop := ∀ read, 0 < read → wordLength read t = read

/-- A word begins in front of this text. -/
def StartsWord (t : Text) : Prop := 0 < wordLength 0 t

theorem wordLength_code {code : Text} {n : Nat} (h : codeLength code = some n) (read : Nat) :
    wordLength read ('\\' :: 'u' :: code) = wordLength (read + 2 + n) (code.drop n) := by
  have hword : isWordChar '\\' = false := by decide
  rw [wordLength, h]
  simp [hword]

/-- A word that begins is as long behind other characters of it, and stops where it ends. -/
theorem exists_wordLength {read : Nat} {t : Text} (h : 0 < wordLength read t) :
    ∃ n, (∀ more, wordLength (read + more) t = read + more + n) ∧ StopsWord (t.drop n) := by
  have hescape : isWordChar '\\' = false := by decide
  have stops {read : Nat} {t : Text} (hread : 0 < read) (h : StopsWord t) :
      ∃ n, (∀ more, wordLength (read + more) t = read + more + n) ∧ StopsWord (t.drop n) :=
    ⟨0, fun more => h (read + more) (by omega), h⟩
  fun_induction wordLength read t with
  | case1 read => exact stops h fun _ _ => wordLength.eq_1 _
  | case2 read c rest hword ih =>
    simp only [Bool.or_eq_true, Bool.and_eq_true, decide_eq_true_eq, Bool.not_eq_true'] at hword
    obtain ⟨n, hn, hstops⟩ := ih h
    refine ⟨n + 1, fun more => ?_, hstops⟩
    rw [wordLength_cons hword.1 (hword.2.imp_left fun h => by omega), Nat.add_right_comm, hn]
    omega
  | case3 read code n hcode hcond ih =>
    obtain ⟨m, hm, hstops⟩ := ih h
    refine ⟨n + m + 1 + 1, fun more => ?_, by rwa [List.drop_drop] at hstops⟩
    rw [wordLength_code hcode, Nat.add_right_comm read, Nat.add_right_comm _ more, hm]
    omega
  | case4 read code hcode =>
    refine stops h fun read hread => ?_
    rw [wordLength, hcode]
    simp [hescape]
  | case5 read rest hrest =>
    refine stops h fun read hread => ?_
    rw [wordLength]
    · simp [hescape]
    · exact hrest
  | case6 read c rest hc hne =>
    have hc : isWordChar c = false := by simpa [h] using hc
    refine stops h fun read hread => ?_
    rw [wordLength.eq_def]
    simp [hc, hne]

theorem StopsWord.isWordChar {c : Char} {t : Text} (h : StopsWord (c :: t)) : isWordChar c = false := by
  rw [Bool.eq_false_iff]
  intro hc
  have hstops := h 1 Nat.one_pos
  rw [wordLength_cons hc (.inl Nat.one_pos)] at hstops
  obtain ⟨n, hn, -⟩ := wordLength_eq (1 + 1) t
  omega

theorem StartsWord.not_stopsWord {t : Text} (h : StartsWord t) : ¬StopsWord t := by
  intro hstops
  obtain ⟨n, hn, -⟩ := exists_wordLength h
  have hzero := hn 0
  have hone := hn 1
  rw [hstops _ (by omega)] at hone
  unfold StartsWord at h
  rw [Nat.zero_add] at hzero
  omega

theorem StartsWord.stopsWord_drop {t : Text} (h : StartsWord t) :
    StopsWord (t.drop (wordLength 0 t)) := by
  obtain ⟨n, hn, hstops⟩ := exists_wordLength h
  have hzero := hn 0
  simp only [Nat.zero_add] at hzero
  rwa [hzero]

/-! ## Tokens -/

theorem trivia_append_rest (s : Space) (t : Text) : (trivia s t).1 ++ (trivia s t).2 = t := by
  fun_induction trivia s t <;> simp_all [trivia.push]

theorem interpreterLine_prefix (source : Text) : interpreterLine source <+: source := by
  have hsource := trivia_append_rest .blank source
  rw [interpreterLine]
  generalize trivia .blank source = read at hsource
  subst hsource
  dsimp only
  split
  · exact (List.prefix_append_right_inj _).2 (List.takeWhile_prefix _)
  · exact List.nil_prefix

theorem token_text (line place : Nat) (lead t : Text) :
    (token line place lead t).1.trivia ++ (token line place lead t).1.text ++ (token line place lead t).2
      = lead ++ t := by
  rw [token]
  dsimp only
  rw [List.append_assoc, List.take_append_drop, List.append_assoc, trivia_append_rest]

/-- A whole word in front of a text. -/
structure Word (word behind : Text) : Prop where
  starts : StartsWord (word ++ behind)
  stops : StopsWord behind

theorem tokenAt_word {t : Text} (h : (tokenAt t).1 = .word) :
    StartsWord t ∧ (tokenAt t).2 = wordLength 0 t := by
  unfold tokenAt at h ⊢
  split at h
  · simp at h
  next c rest =>
    dsimp only at h ⊢
    split at h
    next hword =>
      rw [if_pos hword]
      exact ⟨hword, rfl⟩
    next =>
      repeat' split at h
      all_goals simp at h

theorem word_token {line place : Nat} {lead t : Text} (h : (token line place lead t).1.kind = .word) :
    Word (token line place lead t).1.text (token line place lead t).2 := by
  obtain ⟨hstarts, hsize⟩ := tokenAt_word (t := (trivia .blank t).2) h
  rw [token]
  dsimp only
  rw [hsize]
  exact ⟨by rwa [List.take_append_drop], hstarts.stopsWord_drop⟩

end Lexer

/-! ## Leaves -/

/-- The source of leaves with the blanks before them. -/
def leavesText (leaves : List Leaf) : Text := leaves.flatMap Leaf.source

/-- In front of a text, leaves in the role of a name are whole words, and a namespace stands before a mark
and one of its names. -/
inductive Lexed (behind : Text) : List Leaf → Prop
  | nil : Lexed behind []
  | plain {leaf : Leaf} {more : List Leaf} (hrole : leaf.role = .plain) (hmore : Lexed behind more) :
      Lexed behind (leaf :: more)
  | name {leaf : Leaf} {more : List Leaf} (hrole : leaf.role ≠ .space)
      (hword : Lexer.Word leaf.token.text (leavesText more ++ behind)) (hmore : Lexed behind more) :
      Lexed behind (leaf :: more)
  | space {leaf dot member : Leaf} {more : List Leaf} (hrole : leaf.role = .space)
      (hword : Lexer.Word leaf.token.text (leavesText (dot :: member :: more) ++ behind))
      (hmember : Lexer.Word member.token.text (leavesText more ++ behind))
      (hmore : Lexed behind (dot :: member :: more)) : Lexed behind (leaf :: dot :: member :: more)

namespace Lexed

variable {behind : Text} {first second : List Leaf}

theorem append (h : Lexed (leavesText second ++ behind) first) (h' : Lexed behind second) :
    Lexed behind (first ++ second) := by
  have htext (leaves : List Leaf) : leavesText (leaves ++ second) ++ behind
      = leavesText leaves ++ (leavesText second ++ behind) := by
    rw [leavesText, List.flatMap_append, List.append_assoc]
    rfl
  induction h with
  | nil => exact h'
  | plain hrole _ ih => exact .plain hrole ih
  | @name leaf more hrole hword _ ih => exact .name hrole (htext more ▸ hword) ih
  | @space leaf dot member more hrole hword hmember _ ih =>
    exact .space hrole (htext (dot :: member :: more) ▸ hword) (htext more ▸ hmember) ih

theorem of_append (h : Lexed behind (first ++ second)) : Lexed behind second := by
  induction first with
  | nil => exact h
  | cons leaf first ih =>
    rw [List.cons_append] at h
    generalize first ++ second = rest at h ih
    cases h with
    | plain _ hmore => exact ih hmore
    | name _ _ hmore => exact ih hmore
    | space _ _ _ hmore => exact ih hmore

end Lexed

/-! ## Cursors -/

namespace Cursor

/-- The tokens read and the text still to read make up the source, and the next token is the first one of
that text. -/
structure Sound (source : Text) (c : Cursor) : Prop where
  text : leavesText c.read.reverse ++ c.unread = source
  lexed : Lexed c.unread c.read.reverse
  word : c.next.kind = .word → Lexer.Word c.next.text c.rest

/-- One cursor comes behind another when these leaves are read. -/
structure Follows (c after : Cursor) (leaves : List Leaf) : Prop where
  read : after.read = leaves.reverse ++ c.read
  text : leavesText leaves ++ after.unread = c.unread
  word : after.next.kind = .word → Lexer.Word after.next.text after.rest

variable {source : Text} {c mid after : Cursor} {leaves more : List Leaf}

theorem Follows.trans (h : c.Follows mid leaves) (h' : mid.Follows after more) :
    c.Follows after (leaves ++ more) where
  read := by rw [h'.read, h.read, List.reverse_append, List.append_assoc]
  text := by
    rw [leavesText, List.flatMap_append, List.append_assoc]
    exact (congrArg _ h'.text).trans h.text
  word := h'.word

theorem Sound.follows (h : c.Sound source) (hfollows : c.Follows after leaves)
    (hlexed : Lexed after.unread leaves) : after.Sound source where
  text := by
    rw [hfollows.read, List.reverse_append, List.reverse_reverse, leavesText, List.flatMap_append,
      List.append_assoc]
    exact (congrArg _ hfollows.text).trans h.text
  lexed := by
    rw [hfollows.read, List.reverse_append, List.reverse_reverse]
    exact (hfollows.text.symm ▸ h.lexed).append hlexed
  word := hfollows.word

theorem follows_take (c : Cursor) (kind : TokenKind) (role : LeafRole) (size : Nat) :
    ∃ leaf : Leaf, c.Follows (c.take kind role size) [leaf] ∧ leaf.role = role ∧
      leaf.token.text = (c.next.text ++ c.rest).take size ∧
      (c.take kind role size).unread = (c.next.text ++ c.rest).drop size := by
  have hunread : (c.take kind role size).unread = (c.next.text ++ c.rest).drop size :=
    Lexer.token_text ..
  refine ⟨⟨{ c.next with kind, text := (c.next.text ++ c.rest).take size }, role⟩,
    ⟨rfl, ?_, Lexer.word_token⟩, rfl, rfl, hunread⟩
  rw [hunread, leavesText, List.flatMap_singleton, Leaf.source, List.append_assoc,
    List.take_append_drop, unread, List.append_assoc]

theorem Sound.take (h : c.Sound source) (kind : TokenKind) (size : Nat) :
    (c.take kind .plain size).Sound source := by
  obtain ⟨leaf, hfollows, hrole, -⟩ := c.follows_take kind .plain size
  exact h.follows hfollows (.plain hrole .nil)

theorem follows_word (hwhole : Lexer.Word c.next.text c.rest) (role : LeafRole) :
    ∃ leaf : Leaf, c.Follows (c.take c.next.kind role c.next.text.length) [leaf] ∧ leaf.role = role ∧
      Lexer.Word leaf.token.text (c.take c.next.kind role c.next.text.length).unread := by
  obtain ⟨leaf, hfollows, hrole, htext, hunread⟩ := c.follows_take c.next.kind role c.next.text.length
  refine ⟨leaf, hfollows, hrole, ?_⟩
  rw [htext, hunread, List.take_left, List.drop_left]
  exact hwhole

/-- A name in a namespace is read: two whole words with a mark between them. -/
theorem Sound.follows_twoPart {behindSpace behindDot : Cursor} {space dot member : Leaf}
    (h : c.Sound source) (hspace : c.Follows behindSpace [space])
    (hdot : behindSpace.Follows behindDot [dot]) (hmember : behindDot.Follows after [member])
    (hspaceRole : space.role = .space) (hdotRole : dot.role = .plain)
    (hmemberRole : member.role ≠ .space) (hspaceWord : Lexer.Word space.token.text behindSpace.unread)
    (hmemberWord : Lexer.Word member.token.text after.unread) : after.Sound source := by
  have hmore := hdot.trans hmember
  refine h.follows (hspace.trans hmore)
    (.space hspaceRole ?_ hmemberWord (.plain hdotRole (.name hmemberRole hmemberWord .nil)))
  rw [← hmore.text] at hspaceWord
  exact hspaceWord

/-- Blanks that belong to the next token do not change what follows. -/
theorem follows_of_keepBlanks (h : c.keepBlanks.Follows after leaves) : c.Follows after leaves :=
  ⟨h.read, h.text, h.word⟩

theorem Sound.takeComments (h : c.Sound source) : c.takeComments.Sound source := by
  unfold Cursor.takeComments
  dsimp only
  generalize LineEnd.commentsLength 0 0 .blank c.next.trivia = size
  cases size with
  | zero => exact h
  | succ size =>
    refine h.follows (show c.Follows _ [_] from ⟨rfl, ?_, h.word⟩) (.plain rfl .nil)
    have hlead (t : Text) : t.takeWhile isSpace ++ t.drop (t.takeWhile isSpace).length = t := by
      nth_rewrite 1 [List.prefix_iff_eq_take.1 (List.takeWhile_prefix isSpace)]
      exact List.take_append_drop _ _
    rw [leavesText, List.flatMap_singleton, Leaf.source, hlead]
    change _ ++ (c.next.trivia.drop (size + 1) ++ c.next.text ++ c.rest) = _
    rw [← List.append_assoc, ← List.append_assoc, List.take_append_drop]
    rfl

theorem sound_start (source : Text) : (start source).Sound source := by
  refine ⟨(Lexer.token_text ..).trans ?_, .nil, Lexer.word_token⟩
  obtain ⟨more, hmore⟩ := Lexer.interpreterLine_prefix source
  generalize Lexer.interpreterLine source = lead at hmore ⊢
  rw [← hmore, List.drop_left]

end Cursor

/-! ## Readers -/

namespace Parse

variable {α β : Type}

theorem bind_eq_ok {p : Parse α} {f : α → Parse β} {c after : Cursor} {b : β}
    (h : (p >>= f) c = .ok (b, after)) : ∃ a mid, p c = .ok (a, mid) ∧ f a mid = .ok (b, after) := by
  cases hp : p c with
  | error s =>
    change (p c >>= fun r => f r.1 r.2) = _ at h
    rw [hp] at h
    cases h
  | ok r => exact ⟨r.1, r.2, rfl, (bind_ok hp).symm.trans h⟩

theorem map_eq_ok {p : Parse α} {f : α → β} {c after : Cursor} {b : β}
    (h : (f <$> p) c = .ok (b, after)) : ∃ a, p c = .ok (a, after) ∧ b = f a := by
  rw [map_eq_pure_bind] at h
  obtain ⟨a, mid, hp, hf⟩ := bind_eq_ok h
  cases hf
  exact ⟨a, hp, rfl⟩

/-- The reader leads from sound cursors to sound ones. -/
class Keeps (p : Parse α) : Prop where
  sound : ∀ {source : Text} {c after : Cursor} {a : α}, c.Sound source → p c = .ok (a, after) →
    after.Sound source

/-- From this cursor, if it is sound, the reader leads to a sound one. -/
structure KeepsAt (c : Cursor) (p : Parse α) : Prop where
  sound : ∀ {source : Text} {after : Cursor} {a : α}, c.Sound source → p c = .ok (a, after) →
    after.Sound source

/-- A reader that moves no cursor. -/
theorem Keeps.still {p : Parse α} (h : ∀ c a after, p c = .ok (a, after) → after = c) : Keeps p where
  sound hc hp := h _ _ _ hp ▸ hc

instance (a : α) : Keeps (pure a : Parse α) := .still fun _ _ _ h => by cases h; rfl

theorem Keeps.bind {p : Parse α} {f : α → Parse β} [hp : Keeps p] (hf : ∀ a, Keeps (f a)) :
    Keeps (p >>= f) where
  sound hc h := by
    obtain ⟨a, mid, hp', hf'⟩ := bind_eq_ok h
    exact (hf a).sound (hp.sound hc hp') hf'

instance {p : Parse α} {f : α → Parse β} [Keeps p] [hf : ∀ a, Keeps (f a)] : Keeps (p >>= f) := .bind hf

instance {p : Parse α} {f : α → β} [hp : Keeps p] : Keeps (f <$> p) where
  sound hc h := by
    obtain ⟨a, hp', -⟩ := map_eq_ok h
    exact hp.sound hc hp'

instance {p : Parse α} [Keeps p] : Keeps (discard p) := inferInstanceAs (Keeps (Function.const _ () <$> p))

instance {φ : Prop} [Decidable φ] {p q : Parse α} [Keeps p] [Keeps q] : Keeps (if φ then p else q) := by
  split <;> infer_instance

instance : Keeps (stuck : Parse α) where
  sound _ h := by cases h

instance {f : α → Parse β} : Keeps (stuck >>= f) where
  sound _ h := by cases h

instance : Keeps peek := .still fun _ _ _ h => by cases h; rfl

instance : Keeps (get : Parse Cursor) := .still fun _ _ _ h => by cases h; rfl

instance (n : Nat) : Keeps (ahead n) := .still fun _ _ _ h => by cases h; rfl

instance (e : Ending) : Keeps (lineEnds e) := .still fun _ _ _ h => by cases h; rfl

instance (place : Nat) : Keeps (leavesSince place) := .still fun _ _ _ h => by cases h; rfl

instance (kind : TokenKind) (size : Nat) : Keeps (skipChars kind size) where
  sound hc h := by
    cases h
    exact hc.take ..

instance : Keeps declaredName where
  sound hc h := by
    unfold declaredName at h
    split at h
    · cases h
      exact hc.take ..
    · cases h

instance : Keeps (modify Cursor.takeComments : Parse Unit) where
  sound hc h := by
    cases h
    exact hc.takeComments

theorem orElse_eq_ok {p q : Parse α} {c after : Cursor} {a : α} (h : orElse p q c = .ok (a, after)) :
    p c = .ok (a, after) ∨ q c = .ok (a, after) := by
  unfold orElse at h
  cases hp : p c with
  | ok r =>
    rw [hp] at h
    exact .inl h
  | error s =>
    rw [hp] at h
    cases hq : q c with
    | ok r =>
      rw [hq] at h
      exact .inr h
    | error t =>
      rw [hq] at h
      cases h

instance {p q : Parse α} [hp : Keeps p] [hq : Keeps q] : Keeps (orElse p q) where
  sound hc h := (orElse_eq_ok h).elim (hp.sound hc) (hq.sound hc)

/-- What goes on behind a result that may be missing. -/
instance (priority := low) {p : Parse (Option α)} {f : Option α → Parse β} [Keeps p]
    [hsome : ∀ a, Keeps (f (some a))] [hnone : Keeps (f none)] : Keeps (p >>= f) :=
  .bind fun
    | some a => hsome a
    | none => hnone

instance {p : Parse α} : Keeps (look p) where
  sound {source c after a} hc h := by
    unfold look at h
    cases hp : p c with
    | ok r =>
      rw [hp] at h
      cases h
      exact hc
    | error s =>
      rw [hp] at h
      cases h

/-- What a step keeps, its repetition keeps. -/
instance {step : α → Parse (Option α)} [hstep : ∀ a, Keeps (step a)] (bound : Nat) (a : α) :
    Keeps (iterate step bound a) := by
  induction bound generalizing a with
  | zero => exact inferInstanceAs (Keeps stuck)
  | succ bound ih =>
    rw [iterate]
    have hrest (next : Option α) : Keeps (match next with
        | some b => iterate step bound b
        | none => pure a : Parse α) := by
      cases next with
      | some b => exact ih b
      | none => infer_instance
    infer_instance

/-! ## Readers that depend on the next token -/

theorem Keeps.of_at {p : Parse α} (h : ∀ c, KeepsAt c p) : Keeps p := ⟨(h _).sound⟩

namespace KeepsAt

variable {c : Cursor}

theorem of_keeps {p : Parse α} [Keeps p] : KeepsAt c p := ⟨Keeps.sound⟩

theorem bind {p : Parse α} {f : α → Parse β} (hp : KeepsAt c p) (hf : ∀ a, Keeps (f a)) :
    KeepsAt c (p >>= f) where
  sound hc h := by
    obtain ⟨a, mid, hread, hrest⟩ := bind_eq_ok h
    exact (hf a).sound (hp.sound hc hread) hrest

theorem peek {f : Token → Parse β} (h : KeepsAt c (f c.next)) : KeepsAt c (Parse.peek >>= f) := ⟨h.sound⟩

theorem ahead {n : Nat} {f : Token → Parse β} (h : KeepsAt c (f (c.ahead n))) :
    KeepsAt c (Parse.ahead n >>= f) := ⟨h.sound⟩

end KeepsAt

theorem advance_eq_ok {role : LeafRole} {c after : Cursor} {t : Token}
    (h : advance role c = .ok (t, after)) : after = c.take c.next.kind role c.next.text.length := by
  unfold advance at h
  split at h
  · cases h
  · cases h
    rfl

theorem follows_advance {role : LeafRole} {c after : Cursor} {u : Unit}
    (h : (discard (advance role) : Parse Unit) c = .ok (u, after)) (hword : Lexer.Word c.next.text c.rest) :
    ∃ leaf : Leaf, c.Follows after [leaf] ∧ leaf.role = role ∧
      Lexer.Word leaf.token.text after.unread := by
  obtain ⟨t, hread, -⟩ := map_eq_ok h
  rw [advance_eq_ok hread]
  exact Cursor.follows_word hword role

theorem follows_mark {m : String} {c after : Cursor} {u : Unit} (h : mark m c = .ok (u, after)) :
    ∃ leaf : Leaf, c.Follows after [leaf] ∧ leaf.role = .plain := by
  obtain ⟨t, hread, -⟩ := map_eq_ok h
  change (if isMark m c.next then advance .plain else stuck) c = _ at hread
  split at hread
  · rw [advance_eq_ok hread]
    obtain ⟨leaf, hfollows, hrole, -⟩ := c.follows_take c.next.kind .plain c.next.text.length
    exact ⟨leaf, hfollows, hrole⟩
  · cases hread

theorem KeepsAt.name {c : Cursor} (hword : c.next.kind = .word) {role : LeafRole}
    (hrole : role ≠ .space) : KeepsAt c (discard (advance role)) where
  sound hc h := by
    obtain ⟨leaf, hfollows, rfl, hwhole⟩ := follows_advance h (hc.word hword)
    exact hc.follows hfollows (.name hrole hwhole .nil)

/-! ## Readers of tokens -/

instance : Keeps (advance .plain) where
  sound hc h := by
    rw [advance_eq_ok h]
    exact hc.take ..

instance : Keeps skip := by unfold skip; infer_instance

instance (test : Token → Bool) : Keeps (accept test) := by unfold accept; infer_instance

instance (test : Token → Bool) : Keeps (expect test) := by unfold expect; infer_instance

instance (m : String) : Keeps (mark m) := by unfold mark; infer_instance

instance (w : String) : Keeps (word w) := by unfold word; infer_instance

instance (m : String) : Keeps (acceptMark m) := by unfold acceptMark; infer_instance

instance (w : String) : Keeps (acceptWord w) := by unfold acceptWord; infer_instance

instance : Keeps name := by unfold name; infer_instance

instance (c : Char) : Keeps (cut c) := by unfold cut; infer_instance

instance (c : Char) : Keeps (acceptCut c) := by unfold acceptCut; infer_instance

instance (e : Ending) : Keeps (semicolon e) := by unfold semicolon; infer_instance

/-- A word may be read as the name of a type. -/
instance {f : Unit → Parse α} {p : Parse α} [∀ u, Keeps (f u)] [Keeps p] :
    Keeps (peek >>= fun t => if t.kind = .word then discard (advance .typeName) >>= f else p) := by
  refine .of_at fun c => .peek ?_
  split
  next hword => exact .bind (.name hword (by decide)) fun _ => inferInstance
  next => exact .of_keeps

/-! ## Choices and lists -/

section Lists

variable {p : Parse α} [Keeps p]

instance : Keeps (attempt p) := by unfold attempt; infer_instance

instance (bound : Nat) (stop : Token → Bool) : Keeps (manyUntil bound stop p) := by
  unfold manyUntil; infer_instance

instance (bound : Nat) (start : Token → Bool) : Keeps (manyWhile bound start p) := by
  unfold manyWhile; infer_instance

instance (bound : Nat) (close : Char) : Keeps (commaList bound close p) := by
  unfold commaList; infer_instance

instance (bound : Nat) (close : Char) : Keeps (commaList1 bound close p) := by
  unfold commaList1; infer_instance

instance (bound : Nat) (close : Char) : Keeps (sparseList bound close p) := by
  unfold sparseList; infer_instance

instance (bound : Nat) : Keeps (commas bound p) := by unfold commas; infer_instance

instance : Keeps (withSource p) := by unfold withSource; infer_instance

end Lists

/-! ## Types, regular expressions and templates -/

instance {p : Parse Unit} [Keeps p] : Keeps (typeSource p) := by
  unfold typeSource
  refine .bind fun start => .bind fun _ => .bind fun leaves => ?_
  split <;> infer_instance

instance : Keeps regex := by
  unfold regex
  refine .bind fun t => .bind fun c => ?_
  split <;> infer_instance

instance (escapes : Bool) : Keeps (templatePiece escapes) where
  sound {source c after last} hc h := by
    unfold templatePiece at h
    change (match Lexer.pieceEnd escapes 0 c.keepBlanks.unread with
      | some size => do
        skipChars .templatePiece size
        return (c.keepBlanks.unread.take size).getLast? = some '\x60'
      | none => throw c : Parse Bool) c.keepBlanks = _ at h
    cases hsize : Lexer.pieceEnd escapes 0 c.keepBlanks.unread with
    | none =>
      rw [hsize] at h
      cases h
    | some size =>
      rw [hsize] at h
      cases h
      obtain ⟨leaf, hfollows, hrole, -⟩ := c.keepBlanks.follows_take .templatePiece .plain size
      exact hc.follows (Cursor.follows_of_keepBlanks hfollows) (.plain hrole .nil)

instance (escapes : Bool) {hole : Parse Unit} [Keeps hole] (bound : Nat) :
    Keeps (template.holes escapes hole bound) := by
  induction bound with
  | zero => exact inferInstanceAs (Keeps stuck)
  | succ bound ih =>
    unfold template.holes
    infer_instance

instance (bound : Nat) (escapes : Bool) {hole : Parse Unit} [Keeps hole] :
    Keeps (template bound escapes hole) := by
  unfold template
  infer_instance

end Parse

end NestClient.TypeScript
