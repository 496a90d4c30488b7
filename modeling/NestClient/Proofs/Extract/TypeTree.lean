import Mathlib.Data.List.Forall2
import Mathlib.Data.List.Perm.Basic
import NestClient.Proofs.Extract.Imports
import NestClient.Proofs.Text.Sort
import NestClient.Proofs.Text.Utf8

/-! The names of a type can be replaced in the bytes of its file, at the places where the syntax tree
has them. The tree is searched with a stack, which meets the names in no order of the source; what they
are replaced by is put into the bytes from the back, so that no place in front of it moves.

* `TypeNode.Placed`: what is known of a syntax tree: its nodes stand between characters, inside their
  parents and apart from their siblings.
* `TypeNode.Cut`: the source of a type is that of a tree, cut at the names of the tree.
* `TypeNode.Placed.exists_cut`: the source of a tree can be cut at its names.
* `qualifiedType_of_cut`: whatever the cut, the bytes that are put together are the qualified type. -/

namespace NestClient.TypeScript

open Utf8 (encode decode size size_append encode_append decode_encode)

/-! ## Places in a file -/

/-- A place in the bytes of a file: where it starts, and where it has ended. -/
structure Span where
  start : Nat
  stop : Nat
  deriving DecidableEq, Repr

namespace Span

def bytes (s : Span) (file : List UInt8) : List UInt8 := (file.take s.stop).drop s.start

def text (s : Span) (file : List UInt8) : Except Utf8Fault Text := decode (s.bytes file)

/-- The place lies inside another one. -/
def Within (s outer : Span) : Prop := outer.start ≤ s.start ∧ s.stop ≤ outer.stop

/-- One of the places ends before the other one starts. -/
def Apart (s t : Span) : Prop := s.stop ≤ t.start ∨ t.stop ≤ s.start

instance (s outer : Span) : Decidable (s.Within outer) :=
  inferInstanceAs (Decidable (outer.start ≤ s.start ∧ s.stop ≤ outer.stop))

instance (s t : Span) : Decidable (s.Apart t) :=
  inferInstanceAs (Decidable (s.stop ≤ t.start ∨ t.stop ≤ s.start))

def Holds (file : Text) (s : Span) (t : Text) : Prop :=
  ∃ before after, file = before ++ (t ++ after) ∧ s.start = size before ∧ s.stop = size before + size t

variable {file t u : Text} {s r : Span}

theorem Apart.symm (h : s.Apart r) : r.Apart s := Or.symm h

theorem Apart.of_within {s' r' : Span} (h : s.Apart r) (hs : s'.Within s) (hr : r'.Within r) :
    s'.Apart r' := by
  unfold Within at hs hr
  unfold Apart at h ⊢
  omega

namespace Holds

theorem bytes (h : Holds file s t) : s.bytes (encode file) = encode t := by
  obtain ⟨before, after, rfl, hstart, hstop⟩ := h
  rw [Span.bytes, hstart, hstop, ← size_append, ← List.append_assoc, encode_append, Utf8.take_size,
    encode_append, Utf8.drop_size]

theorem text (h : Holds file s t) : s.text (encode file) = .ok t := by
  rw [Span.text, h.bytes, decode_encode]

theorem stop_eq (h : Holds file s t) : s.stop = s.start + size t := by
  obtain ⟨before, after, -, hstart, hstop⟩ := h
  rw [hstart, hstop]

/-- A text that stands inside another one cuts it in three. -/
theorem cut (h : Holds file s t) (hr : Holds file r u) (hin : r.Within s) :
    ∃ gap tail, t = gap ++ (u ++ tail) ∧ r.start = s.start + size gap ∧
      Holds file ⟨r.stop, s.stop⟩ tail := by
  obtain ⟨before, after, hfile, hstart, hstop⟩ := h
  obtain ⟨before', after', hfile', hstart', hstop'⟩ := hr
  obtain ⟨hfirst, hlast⟩ := hin
  -- the inner text begins behind where the outer one does, and its rest is no longer
  obtain ⟨gap, rfl⟩ : ∃ gap, before' = before ++ gap := by
    rcases List.append_eq_append_iff.1 (hfile.symm.trans hfile') with
      ⟨gap, hgap, -⟩ | ⟨gap, hgap, -⟩
    · exact ⟨gap, hgap⟩
    · have hnil : gap = [] := by
        by_contra hne
        have hpos := Utf8.size_pos hne
        rw [hstart, hstart', hgap, size_append] at hfirst
        omega
      rw [hnil, List.append_nil] at hgap
      exact ⟨[], by rw [hgap, List.append_nil]⟩
  rw [hfile, List.append_assoc, List.append_cancel_left_eq, ← List.append_assoc gap] at hfile'
  rw [size_append] at hstart' hstop'
  obtain ⟨tail, rfl⟩ : ∃ tail, t = gap ++ u ++ tail := by
    rcases List.append_eq_append_iff.1 hfile' with ⟨tail, htail, -⟩ | ⟨tail, htail, -⟩
    · have hnil : tail = [] := by
        by_contra hne
        have hpos := Utf8.size_pos hne
        have hsize := congrArg size htail
        rw [size_append, size_append] at hsize
        omega
      rw [hnil, List.append_nil] at htail
      exact ⟨[], by rw [htail, List.append_nil]⟩
    · exact ⟨tail, htail⟩
  refine ⟨gap, tail, by rw [List.append_assoc], by rw [hstart, hstart'], before ++ gap ++ u, after, ?_,
    ?_, ?_⟩
  · rw [hfile]
    simp only [List.append_assoc]
  · rw [hstop', size_append, size_append, Nat.add_assoc]
  · rw [hstop]
    simp only [size_append, Nat.add_assoc]

end Holds

end Span

/-! ## The tree of a type -/

/-- A node that names a type. -/
inductive NameNode where
  /-- The name of a type. -/
  | name (span : Span)
  /-- A name in a namespace, with the places of the namespace and of the name. -/
  | qualified (span space member : Span)
  deriving DecidableEq, Repr

def NameNode.span : NameNode → Span
  | name span | qualified span _ _ => span

/-- A node in the syntax tree of a type. Names have no nodes of interest inside. -/
inductive TypeNode where
  | name (n : NameNode)
  | other (span : Span) (children : List TypeNode)

namespace TypeNode

def span : TypeNode → Span
  | name n => n.span
  | other span _ => span

def names : TypeNode → List NameNode
  | name n => [n]
  | other _ children => children.flatMap names

end TypeNode

/-! ## Replacing names in the bytes -/

/-- Puts nodes on a stack one after the other. -/
def pushAll (nodes stack : List TypeNode) : List TypeNode := nodes.reverse ++ stack

theorem sizeOf_pushAll (nodes stack : List TypeNode) :
    sizeOf (pushAll nodes stack) + 1 = sizeOf nodes + sizeOf stack := by
  induction nodes generalizing stack with
  | nil => simp [pushAll, Nat.add_comm]
  | cons node nodes ih =>
    have hpushed := ih (node :: stack)
    rw [pushAll] at hpushed ⊢
    rw [List.reverse_cons, List.append_assoc, List.singleton_append, hpushed]
    simp only [List.cons.sizeOf_spec]
    omega

/-- The names in trees on a stack. The last of the nodes inside another one is met first. -/
def stackNames : List TypeNode → List NameNode
  | [] => []
  | .name n :: stack => n :: stackNames stack
  | .other _ children :: stack => stackNames (pushAll children stack)
termination_by stack => sizeOf stack
decreasing_by
  · simp only [List.cons.sizeOf_spec, TypeNode.name.sizeOf_spec]
    omega
  · have hsize := sizeOf_pushAll children stack
    simp only [List.cons.sizeOf_spec, TypeNode.other.sizeOf_spec]
    omega

/-- A text that is to stand at a place. -/
structure Replacement where
  span : Span
  text : Text
  deriving DecidableEq, Repr

/-- Order by places and then by texts. -/
def Replacement.le (a b : Replacement) : Bool :=
  a.span.start < b.span.start || a.span.start = b.span.start &&
    (a.span.stop < b.span.stop || a.span.stop = b.span.stop && Text.le a.text b.text)

/-- What is to stand at the place of a name. -/
def NameNode.replacement? (imports : List ImportDecl) (file : List UInt8) :
    NameNode → Except Utf8Fault (Option Replacement)
  | name span => do
    match (typeBindings imports).lookup (← span.text file) with
    | some (module, imported) => return some ⟨span, reference module imported⟩
    | none => return none
  | qualified span space member => do
    match (namespaceBindings imports).lookup (← space.text file) with
    | some module => return some ⟨span, reference module (← member.text file)⟩
    | none => return none

/-- Bytes from a place of the file on, with a text put in. -/
def Replacement.put (base : Nat) (r : Replacement) (bytes : List UInt8) : List UInt8 :=
  bytes.take (r.span.start - base) ++ encode r.text ++ bytes.drop (r.span.stop - base)

/-- The text of a type with its names replaced, from the last place to the first. -/
def qualifiedType (imports : List ImportDecl) (file : List UInt8) (node : TypeNode) :
    Except Utf8Fault Text := do
  let found ← (stackNames [node]).mapM (·.replacement? imports file)
  let ordered := Text.sortBy (fun a b => b.le a) (found.filterMap id)
  decode (ordered.foldl (fun bytes r => r.put node.span.start bytes) (node.span.bytes file))

/-! ## The search -/

/-- The search meets the names of the trees, each once. -/
theorem stackNames_perm (stack : List TypeNode) :
    (stackNames stack).Perm (stack.flatMap TypeNode.names) := by
  fun_induction stackNames stack with
  | case1 => exact .rfl
  | case2 n stack ih =>
    rw [List.flatMap_cons, TypeNode.names]
    exact ih.cons n
  | case3 span children stack ih =>
    refine ih.trans ?_
    rw [pushAll, List.flatMap_append, List.flatMap_cons, TypeNode.names]
    exact ((List.reverse_perm children).flatMap_right _).append_right _

theorem Replacement.le_trans {a b c : Replacement} (hab : a.le b = true) (hbc : b.le c = true) :
    a.le c = true := by
  simp only [le, Bool.or_eq_true, Bool.and_eq_true, decide_eq_true_eq] at hab hbc ⊢
  rcases hab with hab | ⟨hs, hab⟩
  · exact .inl (by rcases hbc with hbc | ⟨hs', -⟩ <;> omega)
  rcases hbc with hbc | ⟨hs', hbc⟩
  · exact .inl (by omega)
  refine .inr ⟨hs.trans hs', ?_⟩
  rcases hab with hab | ⟨he, hab⟩
  · exact .inl (by rcases hbc with hbc | ⟨he', -⟩ <;> omega)
  rcases hbc with hbc | ⟨he', hbc⟩
  · exact .inl (by omega)
  · exact .inr ⟨he.trans he', Text.le_trans hab hbc⟩

theorem Replacement.le_total (a b : Replacement) : (a.le b || b.le a) = true := by
  have htext := Text.le_total a.text b.text
  simp only [le, Bool.or_eq_true, Bool.and_eq_true, decide_eq_true_eq] at htext ⊢
  rcases Nat.lt_trichotomy a.span.start b.span.start with h | h | h
  · exact .inl (.inl h)
  · rcases Nat.lt_trichotomy a.span.stop b.span.stop with h' | h' | h'
    · exact .inl (.inr ⟨h, .inl h'⟩)
    · exact htext.imp (fun hle => .inr ⟨h, .inr ⟨h', hle⟩⟩) fun hle => .inr ⟨h.symm, .inr ⟨h'.symm, hle⟩⟩
    · exact .inr (.inr ⟨h.symm, .inl h'⟩)
  · exact .inr (.inl h)

theorem Replacement.le_antisymm {a b : Replacement} (hab : a.le b = true) (hba : b.le a = true) :
    a = b := by
  obtain ⟨⟨start, stop⟩, text⟩ := a
  obtain ⟨⟨start', stop'⟩, text'⟩ := b
  simp only [le, Bool.or_eq_true, Bool.and_eq_true, decide_eq_true_eq] at hab hba
  obtain rfl : start = start' := by omega
  obtain rfl : stop = stop' := by omega
  obtain rfl : text = text' := Text.le_antisymm (by simpa using hab) (by simpa using hba)
  rfl

/-! ## The cut at the names -/

/-- The pieces of a type that starts at a place, each with its own place. -/
def TypeSource.placed (place : Nat) : TypeSource → List (Span × TypePiece)
  | [] => []
  | p :: rest => (⟨place, place + size p.source⟩, p) :: placed (place + size p.source) rest

/-- The piece names a type. -/
def TypePiece.isName : TypePiece → Bool
  | plain _ => false
  | name _ | qualified .. => true

/-- The names of a type that starts at a place, each with its own place. -/
def TypeSource.names (place : Nat) (t : TypeSource) : List (Span × TypePiece) :=
  (t.placed place).filter (·.2.isName)

/-- The node is a name of a file, which is read as this piece at this place. -/
inductive NameNode.Reads (file : Text) : NameNode → Span × TypePiece → Prop
  | name {span : Span} {written : Text} (holds : span.Holds file written) :
      Reads file (.name span) (span, .name written)
  | qualified {span spacePlace memberPlace : Span} {space member written : Text}
      (holds : span.Holds file written) (holdsSpace : spacePlace.Holds file space)
      (holdsMember : memberPlace.Holds file member) :
      Reads file (.qualified span spacePlace memberPlace) (span, .qualified space member written)

/-- The source of a type is that of a node in a file, and its names are those of the node. -/
structure TypeNode.Cut (file : Text) (node : TypeNode) (t : TypeSource) : Prop where
  text : node.span.Holds file t.text
  names : ∃ read, List.Forall₂ (NameNode.Reads file) node.names read ∧
    read.Perm (t.names node.span.start)

/-- What is to stand at the place of a piece. -/
def TypePiece.replacement? (imports : List ImportDecl) (x : Span × TypePiece) : Option Replacement :=
  (x.2.target? imports).map fun target => ⟨x.1, reference target.1 target.2⟩

variable {imports : List ImportDecl} {file : Text} {node : TypeNode} {t : TypeSource}

theorem NameNode.Reads.span {n : NameNode} {x : Span × TypePiece} (h : n.Reads file x) :
    x.1 = n.span := by
  cases h <;> rfl

theorem NameNode.Reads.holds {n : NameNode} {x : Span × TypePiece} (h : n.Reads file x) :
    x.1.Holds file x.2.source := by
  cases h with
  | name holds => exact holds
  | qualified holds _ _ => exact holds

theorem NameNode.Reads.isName {n : NameNode} {x : Span × TypePiece} (h : n.Reads file x) :
    x.2.isName = true := by
  cases h <;> rfl

theorem exists_of_mem_read {names : List NameNode} {read : List (Span × TypePiece)}
    (h : List.Forall₂ (NameNode.Reads file) names read) {x : Span × TypePiece} (hx : x ∈ read) :
    ∃ n ∈ names, n.Reads file x := by
  induction h with
  | nil => cases hx
  | cons hn _ ih =>
    rcases List.mem_cons.1 hx with rfl | hx
    · exact ⟨_, List.mem_cons_self, hn⟩
    · obtain ⟨n, hmem, hreads⟩ := ih hx
      exact ⟨n, List.mem_cons_of_mem _ hmem, hreads⟩

theorem pairwise_spans {names : List NameNode} {read : List (Span × TypePiece)}
    (h : List.Forall₂ (NameNode.Reads file) names read) {R : Span → Span → Prop}
    (hnames : names.Pairwise fun m n => R m.span n.span) : read.Pairwise fun x y => R x.1 y.1 := by
  induction h with
  | nil => exact .nil
  | cons hn hmore ih =>
    obtain ⟨hfirst, hlater⟩ := List.pairwise_cons.1 hnames
    refine List.pairwise_cons.2 ⟨fun y hy => ?_, ih hlater⟩
    obtain ⟨m, hm, hy⟩ := exists_of_mem_read hmore hy
    rw [hn.span, hy.span]
    exact hfirst m hm

theorem NameNode.Reads.replacement? (imports : List ImportDecl) {n : NameNode} {x : Span × TypePiece}
    (h : n.Reads file x) :
    n.replacement? imports (encode file) = .ok (TypePiece.replacement? imports x) := by
  cases h with
  | @name span written holds =>
    rw [NameNode.replacement?, holds.text, TypePiece.replacement?, TypePiece.target?]
    dsimp only [bind, Except.bind]
    cases (typeBindings imports).lookup written <;> rfl
  | @qualified span spacePlace memberPlace space member written holds holdsSpace holdsMember =>
    rw [NameNode.replacement?, holdsSpace.text, holdsMember.text, TypePiece.replacement?,
      TypePiece.target?]
    dsimp only [bind, Except.bind]
    cases (namespaceBindings imports).lookup space <;> rfl

theorem TypePiece.qualify_eq_source {p : TypePiece} (h : p.target? imports = none) :
    p.qualify imports = p.source := by
  cases p with
  | plain written => rfl
  | name written =>
    rw [target?] at h
    rw [qualify, h]
    rfl
  | qualified space member written =>
    rw [target?, Option.map_eq_none_iff] at h
    rw [qualify, h]
    rfl

theorem mapM_ok {α β γ ε : Type} {f : α → Except ε γ} {g : β → γ} {as : List α} {bs : List β}
    (h : List.Forall₂ (fun a b => f a = .ok (g b)) as bs) : as.mapM f = .ok (bs.map g) := by
  induction h with
  | nil => rfl
  | cons hab _ ih =>
    rw [List.mapM_cons, hab, ih]
    rfl

/-- The pieces that are plain text are replaced by nothing. -/
theorem filterMap_names (place : Nat) :
    (t.names place).filterMap (TypePiece.replacement? imports)
      = (t.placed place).filterMap (TypePiece.replacement? imports) := by
  rw [TypeSource.names, List.filterMap_filter]
  refine List.filterMap_congr fun x _ => ?_
  obtain ⟨span, piece⟩ := x
  cases piece <;> rfl

/-- Texts that are put in from the last place to the first leave every place in front of them where it
is. -/
theorem put_placed (imports : List ImportDecl) (t : TypeSource) (base place : Nat) (front : List UInt8)
    (h : base + front.length = place) :
    ((t.placed place).filterMap (TypePiece.replacement? imports)).foldr (fun r => r.put base)
      (front ++ encode t.text) = front ++ encode (t.qualify imports) := by
  induction t generalizing place front with
  | nil => rfl
  | cons p rest ih =>
    have hsource : encode (TypeSource.text (p :: rest))
        = encode p.source ++ encode (TypeSource.text rest) := by
      rw [TypeSource.text, List.flatMap_cons, encode_append]
      rfl
    have hqualified : encode (TypeSource.qualify imports (p :: rest))
        = encode (p.qualify imports) ++ encode (TypeSource.qualify imports rest) := by
      rw [TypeSource.qualify, List.flatMap_cons, encode_append]
      rfl
    have hbehind := ih (place + size p.source) (front ++ encode p.source) (by
      rw [List.length_append, ← h, Nat.add_assoc]
      rfl)
    rw [TypeSource.placed, List.filterMap_cons, hsource, hqualified, ← List.append_assoc]
    cases htarget : p.target? imports with
    | none =>
      rw [TypePiece.replacement?, htarget]
      dsimp only [Option.map_none]
      rw [hbehind, TypePiece.qualify_eq_source htarget, List.append_assoc]
    | some target =>
      rw [TypePiece.replacement?, htarget]
      dsimp only [Option.map_some]
      rw [List.foldr_cons, hbehind, TypePiece.qualify_eq htarget, Replacement.put]
      dsimp only
      have hstart : place - base = front.length := by omega
      have hstop : place + size p.source - base = (front ++ encode p.source).length := by
        rw [List.length_append, ← h]
        change _ = _ + size p.source
        omega
      rw [hstart, hstop, List.drop_left, List.append_assoc front, List.take_left, List.append_assoc]

/-- What is put into the bytes of a node, if the texts are in the order of their places. -/
theorem qualifiedType_eq (h : node.Cut file t)
    (hordered : ((t.names node.span.start).filterMap (TypePiece.replacement? imports)).Pairwise
      fun a b => a.le b = true) :
    qualifiedType imports (encode file) node = .ok (t.qualify imports) := by
  obtain ⟨read, hreads, hread⟩ := h.names
  have hmet : (stackNames [node]).Perm node.names := by
    have hperm := stackNames_perm [node]
    rwa [List.flatMap_singleton] at hperm
  obtain ⟨met, hmetReads, hmetRead⟩ := List.perm_comp_forall₂ hmet hreads
  have hfound := mapM_ok (hmetReads.imp fun n x hx => hx.replacement? imports)
  have hsorted : Text.sortBy (fun a b : Replacement => b.le a)
        ((met.map (TypePiece.replacement? imports)).filterMap id)
      = ((t.names node.span.start).filterMap (TypePiece.replacement? imports)).reverse := by
    have hback := @Text.pairwise_sortBy Replacement (fun a b => b.le a)
      (fun a b c hab hbc => Replacement.le_trans hbc hab) (fun a b => Replacement.le_total b a)
      ((met.map (TypePiece.replacement? imports)).filterMap id)
    refine List.Perm.eq_of_pairwise (fun a b _ _ hab hba => Replacement.le_antisymm hba hab) hback
      (List.pairwise_reverse.2 hordered) ?_
    rw [List.filterMap_map]
    exact (Text.sortBy_perm _).trans (((hmetRead.trans hread).filterMap _).trans
      (List.reverse_perm _).symm)
  have hput := put_placed imports t node.span.start node.span.start [] rfl
  rw [qualifiedType, hfound]
  dsimp only [bind, Except.bind]
  rw [hsorted, List.foldl_reverse, h.text.bytes, filterMap_names]
  exact (congrArg decode hput).trans (decode_encode _)

/-- What a piece becomes, at its place. -/
def TypePiece.become (imports : List ImportDecl) (x : Span × TypePiece) : Replacement :=
  ⟨x.1, x.2.qualify imports⟩

theorem TypePiece.become_eq {x : Span × TypePiece} {r : Replacement}
    (h : replacement? imports x = some r) : become imports x = r := by
  obtain ⟨target, htarget, rfl⟩ := Option.map_eq_some_iff.1 h
  rw [become, qualify_eq htarget]

/-- Pieces in the order of what they become have their replacements in order. -/
theorem pairwise_replacements {read : List (Span × TypePiece)}
    (h : read.Pairwise fun x y => (TypePiece.become imports x).le (TypePiece.become imports y) = true) :
    (read.filterMap (TypePiece.replacement? imports)).Pairwise fun a b => a.le b = true := by
  rw [List.pairwise_filterMap]
  refine h.imp fun {x y} hxy a ha b hb => ?_
  rw [← TypePiece.become_eq ha, ← TypePiece.become_eq hb]
  exact hxy

theorem le_start_of_mem_placed {place : Nat} {x : Span × TypePiece} (h : x ∈ t.placed place) :
    place ≤ x.1.start ∧ x.1.stop = x.1.start + size x.2.source := by
  induction t generalizing place with
  | nil => simp [TypeSource.placed] at h
  | cons p rest ih =>
    rw [TypeSource.placed, List.mem_cons] at h
    rcases h with rfl | h
    · exact ⟨Nat.le_refl _, rfl⟩
    · have hlater := ih h
      exact ⟨by omega, hlater.2⟩

theorem pairwise_placed (t : TypeSource) (place : Nat) :
    (t.placed place).Pairwise fun x y => x.1.stop ≤ y.1.start := by
  induction t generalizing place with
  | nil => exact .nil
  | cons p rest ih =>
    rw [TypeSource.placed, List.pairwise_cons]
    exact ⟨fun y hy => (le_start_of_mem_placed hy).1, ih _⟩

/-- Whatever the cut, what is put into the bytes of a node is the qualified type, if no name is
empty. -/
theorem qualifiedType_of_cut (h : node.Cut file t)
    (hwritten : ∀ n ∈ node.names, n.span.start < n.span.stop) :
    qualifiedType imports (encode file) node = .ok (t.qualify imports) := by
  refine qualifiedType_eq h (pairwise_replacements ?_)
  obtain ⟨read, hreads, hread⟩ := h.names
  refine List.Pairwise.imp_of_mem ?_ ((pairwise_placed t node.span.start).filter (·.2.isName))
  intro x y hx hy hxy
  obtain ⟨n, hn, hx⟩ := exists_of_mem_read hreads (hread.mem_iff.2 hx)
  have hlt : x.1.start < x.1.stop := hx.span ▸ hwritten n hn
  have hfirst : x.1.start < y.1.start := Nat.lt_of_lt_of_le hlt hxy
  rw [Replacement.le, TypePiece.become, TypePiece.become, decide_eq_true hfirst, Bool.true_or]

/-! ## A tree that stands in a file -/

/-- What is known of a syntax tree: every node stands between characters of the file, inside its parent,
and apart from its siblings. -/
inductive TypeNode.Placed (file : Text) : TypeNode → Prop
  | name {n : NameNode} (reads : ∃ x, n.Reads file x) : Placed file (.name n)
  | other {span : Span} {children : List TypeNode} (holds : ∃ t, span.Holds file t)
      (nested : ∀ c ∈ children, c.span.Within span)
      (apart : children.Pairwise fun a b => a.span.Apart b.span)
      (placed : ∀ c ∈ children, Placed file c) : Placed file (.other span children)

namespace TypeNode.Placed

theorem holds (h : node.Placed file) : ∃ t, node.span.Holds file t := by
  cases h with
  | name reads =>
    obtain ⟨x, hx⟩ := reads
    cases hx with
    | name holds => exact ⟨_, holds⟩
    | qualified holds _ _ => exact ⟨_, holds⟩
  | other holds _ _ _ => exact holds

theorem reads (h : node.Placed file) : ∀ n ∈ node.names, ∃ x, n.Reads file x := by
  induction h with
  | name reads =>
    intro n hn
    rw [names, List.mem_singleton] at hn
    exact hn ▸ reads
  | other _ _ _ _ ih =>
    intro n hn
    rw [names, List.mem_flatMap] at hn
    obtain ⟨c, hc, hn⟩ := hn
    exact ih c hc n hn

theorem within (h : node.Placed file) : ∀ n ∈ node.names, n.span.Within node.span := by
  induction h with
  | name reads =>
    intro n hn
    rw [names, List.mem_singleton] at hn
    subst hn
    exact ⟨Nat.le_refl _, Nat.le_refl _⟩
  | other _ nested _ _ ih =>
    intro n hn
    rw [names, List.mem_flatMap] at hn
    obtain ⟨c, hc, hn⟩ := hn
    have hinner := ih c hc n hn
    have houter := nested c hc
    exact ⟨Nat.le_trans houter.1 hinner.1, Nat.le_trans hinner.2 houter.2⟩

theorem apart (h : node.Placed file) : node.names.Pairwise fun a b => a.span.Apart b.span := by
  induction h with
  | name reads =>
    rw [names]
    exact List.pairwise_singleton _ _
  | other _ _ apart placed ih =>
    rw [names, List.pairwise_flatMap]
    refine ⟨ih, List.Pairwise.imp_of_mem ?_ apart⟩
    intro a b ha hb hab m hm n hn
    exact hab.of_within ((placed a ha).within m hm) ((placed b hb).within n hn)

end TypeNode.Placed

/-- A text is cut at names that stand in it one behind the other. -/
theorem exists_source {s : Span} {written : Text} (hs : s.Holds file written)
    {read : List (Span × TypePiece)}
    (hread : ∀ x ∈ read, x.1.Within s ∧ x.1.Holds file x.2.source ∧ x.2.isName = true)
    (hordered : read.Pairwise fun x y => x.1.stop ≤ y.1.start) :
    ∃ t : TypeSource, t.text = written ∧ t.names s.start = read := by
  induction read generalizing s written with
  | nil => exact ⟨[.plain written], by simp [TypeSource.text, TypePiece.source], rfl⟩
  | cons x read ih =>
    obtain ⟨⟨hin, hholds, hname⟩, hmore⟩ := List.forall_mem_cons.1 hread
    obtain ⟨hfirst, hlater⟩ := List.pairwise_cons.1 hordered
    obtain ⟨gap, tail, rfl, hgap, htail⟩ := hs.cut hholds hin
    obtain ⟨t, rfl, ht⟩ := ih htail
      (fun y hy => ⟨⟨hfirst y hy, (hmore y hy).1.2⟩, (hmore y hy).2⟩) hlater
    obtain ⟨⟨start, stop⟩, p⟩ := x
    have hstop := hholds.stop_eq
    dsimp only at hgap hstop hname
    refine ⟨.plain gap :: p :: t, rfl, ?_⟩
    rw [TypeSource.names, TypeSource.placed, List.filter_cons_of_neg (by simp [TypePiece.isName]),
      TypeSource.placed, TypePiece.source, ← hgap, ← hstop, List.filter_cons_of_pos (by exact hname)]
    exact congrArg (_ :: ·) ht

theorem exists_reads {names : List NameNode} (h : ∀ n ∈ names, ∃ x, n.Reads file x) :
    ∃ read, List.Forall₂ (NameNode.Reads file) names read := by
  induction names with
  | nil => exact ⟨[], .nil⟩
  | cons n names ih =>
    obtain ⟨⟨x, hx⟩, hmore⟩ := List.forall_mem_cons.1 h
    obtain ⟨read, hread⟩ := ih hmore
    exact ⟨x :: read, .cons hx hread⟩

/-- Of two places apart from each other, that which comes first in order ends before the other one
starts. -/
theorem Replacement.stop_le_of_le {a b : Replacement} {s u : Text} (ha : a.span.Holds file s)
    (hb : b.span.Holds file u) (h : a.le b = true) (hapart : a.span.Apart b.span) :
    a.span.stop ≤ b.span.start := by
  have hstopA := ha.stop_eq
  have hstopB := hb.stop_eq
  simp only [le, Bool.or_eq_true, Bool.and_eq_true, decide_eq_true_eq] at h
  rcases hapart with hapart | hapart
  · exact hapart
  · omega

/-- The source of a tree can be cut at its names, and these are then in the order of what is to stand in
their places. -/
theorem TypeNode.Placed.exists_cut (h : node.Placed file) (imports : List ImportDecl) :
    ∃ t : TypeSource, node.Cut file t ∧
      ((t.names node.span.start).filterMap (TypePiece.replacement? imports)).Pairwise
        fun a b => a.le b = true := by
  obtain ⟨written, hwritten⟩ := h.holds
  obtain ⟨read, hread⟩ := exists_reads h.reads
  let before (x y : Span × TypePiece) : Bool :=
    (TypePiece.become imports x).le (TypePiece.become imports y)
  have hperm : (Text.sortBy before read).Perm read := Text.sortBy_perm read
  have hsorted : (Text.sortBy before read).Pairwise fun x y => before x y = true :=
    Text.pairwise_sortBy (fun x y z => Replacement.le_trans (b := TypePiece.become imports y))
      (fun x y => Replacement.le_total (TypePiece.become imports x) (TypePiece.become imports y)) read
  have hapart : (Text.sortBy before read).Pairwise fun x y => x.1.Apart y.1 :=
    (pairwise_spans hread h.apart).perm hperm.symm fun h => h.symm
  have hreads : ∀ x ∈ Text.sortBy before read,
      x.1.Within node.span ∧ x.1.Holds file x.2.source ∧ x.2.isName = true := by
    intro x hx
    obtain ⟨n, hn, hx⟩ := exists_of_mem_read hread (hperm.mem_iff.1 hx)
    exact ⟨hx.span ▸ h.within n hn, hx.holds, hx.isName⟩
  have hordered : (Text.sortBy before read).Pairwise fun x y => x.1.stop ≤ y.1.start := by
    refine List.Pairwise.imp_of_mem ?_ (hsorted.and hapart)
    intro x y hx hy ⟨hle, happart⟩
    exact Replacement.stop_le_of_le (hreads x hx).2.1 (hreads y hy).2.1 hle happart
  obtain ⟨t, ht, hnames⟩ := exists_source hwritten hreads hordered
  refine ⟨t, ⟨ht ▸ hwritten, read, hread, hnames ▸ hperm.symm⟩, ?_⟩
  rw [hnames]
  exact pairwise_replacements hsorted

end NestClient.TypeScript
