import Mathlib.Data.List.Forall2
import NestClient.TypeScript.Reader

/-! The decorators in the body of a class, and the methods that they belong to.

* `StandBefore`: the decorators between a place of a body and the nearest member before it.
* `MethodNode.ReadAs`: a method is read for its node, with these decorators and then the node's own.
* `readMembers_definitions`: each method definition is read with the decorators that stand before it and
  those inside of it, and no decorator is read twice. -/

namespace NestClient.TypeScript

/-! ## Places of a body -/

namespace Member

/-- Something that a class has: a method, a field or anything else but a decorator or a comment. -/
def isDeclaration : Member → Bool
  | method _ | other => true
  | decorator _ | comment => false

def isMethod : Member → Bool
  | method _ => true
  | decorator _ | comment | other => false

def decorator? : Member → Option DecoratorNode
  | decorator d => some d
  | comment | method _ | other => none

/-- The decorator at a place, or those inside of the method there. -/
def decorators : Member → List DecoratorNode
  | decorator d => [d]
  | method m => m.decorators
  | comment | other => []

end Member

/-- These are the decorators that stand between a place of a body and the nearest member before it, given
all that stands before the place. -/
def StandBefore (before : List Member) (ds : List DecoratorNode) : Prop :=
  ∃ earlier between, before = earlier ++ between ∧ (∀ n ∈ earlier.getLast?, n.isDeclaration = true) ∧
    (∀ n ∈ between, n.isDeclaration = false) ∧ between.filterMap Member.decorator? = ds

namespace StandBefore

variable {before : List Member} {ds : List DecoratorNode}

theorem nil : StandBefore [] [] := ⟨[], [], rfl, by simp, by simp, rfl⟩

/-- A decorator or a comment lets go of no decorator. -/
theorem pass {n : Member} (h : StandBefore before ds) (hn : n.isDeclaration = false) :
    StandBefore (before ++ [n]) (ds ++ n.decorator?.toList) := by
  obtain ⟨earlier, between, rfl, hearlier, hbetween, rfl⟩ := h
  refine ⟨earlier, between ++ [n], List.append_assoc .., hearlier, ?_, ?_⟩
  · rw [List.forall_mem_append]
    exact ⟨hbetween, by simpa using hn⟩
  · rw [List.filterMap_append]
    cases n <;> rfl

/-- A member lets go of all of them. -/
theorem declaration {n : Member} (before : List Member) (hn : n.isDeclaration = true) :
    StandBefore (before ++ [n]) [] :=
  ⟨before ++ [n], [], (List.append_nil _).symm, by simpa using hn, by simp, rfl⟩

end StandBefore

/-! ## What a method is read as -/

/-- The decorator is read for the node: by the last name of what is applied, with the source of its
arguments. -/
structure DecoratorNode.ReadAs (d : DecoratorNode) (read : Decorator) : Prop where
  name : read.name = lastName d.callee
  arguments : read.arguments.map (·.text) = d.arguments.map (·.source)

/-- The method is read for the node, with these decorators before those inside of it. -/
structure MethodNode.ReadAs (m : MethodNode) (before : List DecoratorNode) (read : MethodDecl) : Prop where
  name : read.name = m.name
  line : read.line = m.line
  parameters : read.parameters.map (·.name) = m.parameters.map (·.pattern)
  decorators : List.Forall₂ DecoratorNode.ReadAs (before ++ m.decorators) read.decorators

theorem ArgumentNode.text_read (a : ArgumentNode) : a.read.text = a.source := by
  unfold ArgumentNode.read
  cases a.expr <;> rfl

theorem DecoratorNode.readAs (d : DecoratorNode) : d.ReadAs d.read where
  name := rfl
  arguments := by
    rw [read, List.map_map]
    exact List.map_congr_left fun a _ => a.text_read

theorem forall₂_readAs (ds : List DecoratorNode) :
    List.Forall₂ DecoratorNode.ReadAs ds (ds.map DecoratorNode.read) := by
  rw [List.forall₂_map_right_iff, List.forall₂_same]
  exact fun d _ => d.readAs

theorem MethodNode.readAs (imports : List ImportDecl) (m : MethodNode) (before : List DecoratorNode) :
    m.ReadAs before (m.read imports (before ++ m.decorators)) where
  name := rfl
  line := rfl
  parameters := by
    rw [read, List.map_map]
    rfl
  decorators := forall₂_readAs _

/-! ## Reading a body -/

/-- The places of a body at which a method is defined. -/
def definitionPlaces (body : List Member) : List Nat :=
  (List.range body.length).filter fun i => body[i]?.any Member.isMethod

/-- The method that is read for the definition at a place of a body. -/
def DefinedAt (body : List Member) (i : Nat) (read : MethodDecl) : Prop :=
  ∃ m ds, body[i]? = some (.method m) ∧ StandBefore (body.take i) ds ∧ m.ReadAs ds read

section

variable (imports : List ImportDecl)

/-- The decorators gathered at a place of a body are those that stand before it, so the induction is over
what is still to read, for every place. -/
theorem forall₂_readMembers {before : List Member} {ds : List DecoratorNode} (h : StandBefore before ds)
    (rest : List Member) :
    List.Forall₂ (DefinedAt (before ++ rest))
      ((List.range' before.length rest.length).filter fun i => (before ++ rest)[i]?.any Member.isMethod)
      (readMembers imports ds rest) := by
  induction rest generalizing before ds with
  | nil => exact .nil
  | cons n rest ih =>
    have hplace : (before ++ n :: rest)[before.length]? = some n := by simp
    have hbody : before ++ n :: rest = (before ++ [n]) ++ rest := by simp
    have hlength : before.length + 1 = (before ++ [n]).length := by simp
    rw [List.length_cons, List.range'_succ, List.filter_cons, hplace, Option.any_some]
    cases n with
    | decorator d =>
      have hmore := ih (h.pass (n := .decorator d) rfl)
      rw [← hbody, ← hlength] at hmore
      exact hmore
    | comment =>
      have hmore := ih (h.pass (n := .comment) rfl)
      rw [← hbody, ← hlength] at hmore
      rw [Member.decorator?, Option.toList_none, List.append_nil] at hmore
      exact hmore
    | method m =>
      have hmore := ih (StandBefore.declaration (n := .method m) before rfl)
      rw [← hbody, ← hlength] at hmore
      refine .cons ⟨m, ds, hplace, ?_, m.readAs imports ds⟩ hmore
      rwa [List.take_left]
    | other =>
      have hmore := ih (StandBefore.declaration (n := .other) before rfl)
      rw [← hbody, ← hlength] at hmore
      exact hmore

/-- Decorators are read in order and each at most once, those gathered before included. -/
theorem sublist_readMembers (gathered : List DecoratorNode) (body : List Member) :
    ((readMembers imports gathered body).flatMap (·.decorators)).Sublist
      ((gathered ++ body.flatMap Member.decorators).map DecoratorNode.read) := by
  induction body generalizing gathered with
  | nil => exact List.nil_sublist _
  | cons n body ih =>
    rw [List.flatMap_cons]
    cases n with
    | decorator d =>
      have hmore := ih (gathered ++ [d])
      rwa [List.append_assoc] at hmore
    | comment => exact ih gathered
    | method m =>
      rw [← List.append_assoc, List.map_append]
      exact (List.Sublist.refl _).append (ih [])
    | other =>
      rw [List.map_append]
      exact (ih []).trans (List.sublist_append_right _ _)

/-- The methods read of a class are the method definitions of its body in order. Each has the decorators
that stand between it and the nearest member before it, comments skipped, and then those inside of it; no
decorator of the body is read twice. -/
theorem readMembers_definitions (outer : List DecoratorNode) (c : ClassNode) :
    List.Forall₂ (DefinedAt c.members) (definitionPlaces c.members) (c.read imports outer).methods ∧
      ∃ nodes : List DecoratorNode, nodes.Sublist (c.members.flatMap Member.decorators) ∧
        List.Forall₂ DecoratorNode.ReadAs nodes
          ((c.read imports outer).methods.flatMap (·.decorators)) := by
  constructor
  · rw [definitionPlaces, List.range_eq_range']
    exact forall₂_readMembers imports StandBefore.nil c.members
  · obtain ⟨nodes, hnodes, hread⟩ := List.sublist_map_iff.1 (sublist_readMembers imports [] c.members)
    refine ⟨nodes, hnodes, ?_⟩
    rw [ClassNode.read, hread]
    exact forall₂_readAs nodes

end

/-- `@A() name; @B() /* behind */ find() {}`, with `@C()` inside of the method: the field has its
decorator to itself. -/
example :
    let body : List Member := [.other, .decorator { callee := "B".toList }, .comment,
      .method { name := "find".toList, decorators := [{ callee := "C".toList }] }]
    (readMembers [] [] body).map (fun m => m.decorators.map (·.name))
      = [["B".toList, "C".toList]] := by
  decide

end NestClient.TypeScript
