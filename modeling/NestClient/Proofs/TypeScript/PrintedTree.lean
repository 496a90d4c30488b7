import Mathlib.Data.List.Flatten
import Mathlib.Data.List.Nodup
import Mathlib.Data.List.TakeWhile
import NestClient.Proofs.TypeScript.Printed
import NestClient.Proofs.TypeScript.StringLiteral

/-! The trees of written declarations, and what a reader of trees makes of them: the declarations that
were written. A name that an import binds is looked up from the last binding on; as no two imports bind
one name, the first binding is as good. -/

namespace NestClient.TypeScript.Printed

/-! ## Trees -/

/-- A name in a type, with what stands before it. -/
def namePieces (lead : Text) : Option Identifier → Identifier → TypeSource
  | none, name => [.plain lead, .name name.text]
  | some space, name =>
    [.plain lead, .qualified space.text name.text (asWritten (some space) name)]

def markPieces (c : Char) : TypeSource := [.plain [], .plain [c]]

namespace TypeExpr

def pairPieces (brackets : Nat) : TypeSource :=
  (List.replicate brackets (markPieces '[' ++ markPieces ']')).flatten

mutual

/-- The type in pieces, with what stands before it. -/
def pieces (lead : Text) : TypeExpr → TypeSource
  | mk space name [] brackets => namePieces lead space name ++ pairPieces brackets
  | mk space name (first :: more) brackets =>
    namePieces lead space name ++
      (markPieces '<' ++ (pieces [] first ++ piecesMore more) ++ markPieces '>') ++ pairPieces brackets

/-- The type arguments behind the first one in pieces. -/
def piecesMore : List TypeExpr → TypeSource
  | [] => []
  | t :: more => markPieces ',' ++ pieces " ".toList t ++ piecesMore more

end

end TypeExpr

def StringValue.node (v : StringValue) : ArgumentNode := ⟨v.quoted, .string v.quoted⟩

def Decorator.node (d : Decorator) : DecoratorNode :=
  ⟨d.name.text, (d.arguments.getD []).map StringValue.node⟩

def Parameter.node (p : Parameter) : ParameterNode :=
  { decorators := p.decorators.map Decorator.node
    pattern := p.name.text
    question := p.optional
    type := p.type.map (·.pieces []) }

def Method.node (m : Method) : MethodNode :=
  { name := m.name.text
    parameters := m.parameters.map Parameter.node
    returnType := m.returnType.map (·.pieces []) }

/-- The members that a method makes: its decorators precede it. -/
def Method.members (m : Method) : List Member :=
  m.decorators.map (.decorator ·.node) ++ [.method m.node]

def Identifier.declared (i : Identifier) : Name where
  text := i.text
  written c hc := by
    have hword := List.all_eq_true.1 i.chars c hc
    rw [Bool.and_eq_true] at hword
    rw [isWrittenChar, hword.1]
    rfl

def Class.node (c : Class) : ClassNode :=
  { name := c.name.declared, members := c.methods.flatMap Method.members }

def Import.node (i : Import) : ImportNode :=
  { specifier := i.specifier.quoted
    named := i.taken.named.map fun n => (n.1.text, n.2.map (·.text))
    namespaceName := i.taken.space?.map (·.text)
    defaultName := i.defaultName.map (·.text) }

def Constant.statement (c : Constant) : Statement :=
  .bindings [(c.name.text, some (.string c.value.quoted))]

def Class.statement (c : Class) : Statement := .classDecl (c.decorators.map Decorator.node) c.node

def File.statements (f : File) : List Statement :=
  f.imports.map (.importing ·.node) ++ f.constants.map Constant.statement
    ++ f.classes.map Class.statement

/-! ## The text of pieces -/

namespace TypeExpr

section Shown

variable {g : TypePiece → Text} {shown : Option Identifier → Identifier → Text}

theorem flatMap_pairPieces (hplain : ∀ w, g (.plain w) = w) (n : Nat) :
    (pairPieces n).flatMap g = pairs n := by
  induction n with
  | zero => rfl
  | succ n ih =>
    have hone : (markPieces '[' ++ markPieces ']').flatMap g = "[]".toList := by
      simp [markPieces, hplain]
    rw [pairPieces, pairs] at ih ⊢
    rw [List.replicate_succ, List.replicate_succ, List.flatten_cons, List.flatten_cons,
      List.flatMap_append, hone, ih]

theorem flatMap_namePieces (hplain : ∀ w, g (.plain w) = w)
    (hname : ∀ n : Identifier, g (.name n.text) = shown none n)
    (hqualified : ∀ s n : Identifier,
      g (.qualified s.text n.text (asWritten (some s) n)) = shown (some s) n)
    (lead : Text) (space : Option Identifier) (name : Identifier) :
    (namePieces lead space name).flatMap g = lead ++ shown space name := by
  cases space with
  | none => simp [namePieces, hplain, hname]
  | some space => simp [namePieces, hplain, hqualified]

mutual

/-- Pieces shown one by one make the type as its names are shown. -/
theorem flatMap_pieces (hplain : ∀ w, g (.plain w) = w)
    (hname : ∀ n : Identifier, g (.name n.text) = shown none n)
    (hqualified : ∀ s n : Identifier,
      g (.qualified s.text n.text (asWritten (some s) n)) = shown (some s) n)
    (lead : Text) (t : TypeExpr) : (t.pieces lead).flatMap g = lead ++ t.render shown := by
  match t with
  | mk space name [] brackets =>
    rw [pieces, render, List.flatMap_append, flatMap_namePieces hplain hname hqualified,
      flatMap_pairPieces hplain, List.append_assoc]
  | mk space name (first :: more) brackets =>
    have hfirst := flatMap_pieces hplain hname hqualified [] first
    have hmore := flatMap_piecesMore hplain hname hqualified more
    rw [pieces, render]
    simp [List.flatMap_append, flatMap_namePieces hplain hname hqualified,
      flatMap_pairPieces hplain, hfirst, hmore, markPieces, hplain]

theorem flatMap_piecesMore (hplain : ∀ w, g (.plain w) = w)
    (hname : ∀ n : Identifier, g (.name n.text) = shown none n)
    (hqualified : ∀ s n : Identifier,
      g (.qualified s.text n.text (asWritten (some s) n)) = shown (some s) n)
    (ts : List TypeExpr) : (piecesMore ts).flatMap g = renderMore shown ts := by
  match ts with
  | [] => rfl
  | t :: more =>
    have ht := flatMap_pieces hplain hname hqualified " ".toList t
    have hmore := flatMap_piecesMore hplain hname hqualified more
    rw [piecesMore, renderMore, List.flatMap_append, List.flatMap_append, ht, hmore]
    simp [markPieces, hplain]

end

end Shown

theorem text_pieces (t : TypeExpr) : TypeSource.text (t.pieces []) = t.text :=
  flatMap_pieces (g := TypePiece.source) (fun _ => rfl) (fun _ => rfl) (fun _ _ => rfl) [] t

end TypeExpr

/-! ## Imported names -/

theorem Identifier.text_inj {a b : Identifier} : a.text = b.text ↔ a = b := by
  cases a
  cases b
  simp

/-- Where no key stands twice, the last entry of a key is its first. -/
theorem lookup_reverse {β : Type} {l : List (Text × β)} (h : (l.map Prod.fst).Nodup) (a : Text) :
    l.reverse.lookup a = l.lookup a := by
  induction l with
  | nil => rfl
  | cons p l ih =>
    obtain ⟨key, value⟩ := p
    rw [List.map_cons, List.nodup_cons] at h
    rw [List.reverse_cons, List.lookup_append, ih h.2]
    by_cases ha : a = key
    · subst ha
      have hnone : l.lookup a = none := List.lookup_eq_none_iff.2 fun q hq => by
        have hne : a ≠ q.1 := fun e => h.1 (List.mem_map.2 ⟨q, hq, e.symm⟩)
        simpa using hne
      simp [hnone]
    · have hne : (a == key) = false := by simpa using ha
      simp [List.lookup_cons, hne]

theorem lookup_map_text {α β : Type} {entry : α → Text × β} (key : α → Identifier)
    (hkey : ∀ a, (entry a).1 = (key a).text) (l : List α) (name : Identifier) :
    (l.map entry).lookup name.text = (l.find? fun a => key a = name).map fun a => (entry a).2 := by
  induction l with
  | nil => rfl
  | cons a l ih =>
    rw [List.map_cons, List.lookup_cons, hkey a]
    by_cases h : key a = name
    · simp [h]
    · have hne : (name.text == (key a).text) = false := by
        simpa [Identifier.text_inj] using fun e : name = key a => h e.symm
      simp [hne, h, ih]

namespace Import

def types (i : Import) : List (Text × Text × Text) :=
  (i.taken.named.map fun n => ((localName n).text, i.specifier.text, n.1.text))
    ++ i.defaultName.toList.map fun own => (own.text, i.specifier.text, own.text)

theorem lookup_types (i : Import) (name : Identifier) :
    i.types.lookup name.text = (i.typeNamed? name).map fun there => (i.specifier.text, there.text) := by
  have hdefault : (i.defaultName.toList.find? fun own => own = name)
      = i.defaultName.filter fun own => own = name := by
    cases i.defaultName with
    | none => rfl
    | some own => by_cases h : own = name <;> simp [Option.filter, h]
  rw [types, typeNamed?, List.lookup_append, lookup_map_text localName (fun _ => rfl),
    lookup_map_text id (fun _ => rfl)]
  simp only [id_eq, hdefault, Option.map_or, Option.map_map, Function.comp_def]

end Import

theorem typeBindings_decl (imports : List Import) :
    typeBindings (imports.map Import.decl) = (imports.flatMap Import.types).reverse := by
  rw [typeBindings, List.flatMap_map]
  refine congrArg List.reverse (List.flatMap_congr fun i _ => ?_)
  simp [Import.types, Import.decl, Option.toList_map, Function.comp_def]

theorem lookup_flatMap_types (imports : List Import) (name : Identifier) :
    (imports.flatMap Import.types).lookup name.text
      = (imports.findSome? fun i => (i.typeNamed? name).map fun there => (i, there)).map
          fun found => (found.1.specifier.text, found.2.text) := by
  induction imports with
  | nil => rfl
  | cons i imports ih =>
    rw [List.flatMap_cons, List.lookup_append, Import.lookup_types, ih, List.findSome?_cons]
    cases i.typeNamed? name <;> rfl

theorem namespaceBindings_decl (imports : List Import) :
    namespaceBindings (imports.map Import.decl)
      = (imports.flatMap fun i => i.taken.space?.toList.map fun s => (s.text, i.specifier.text)).reverse := by
  rw [namespaceBindings, List.flatMap_map]
  refine congrArg List.reverse (List.flatMap_congr fun i _ => ?_)
  simp [Import.decl, Option.toList_map, Function.comp_def]

theorem lookup_flatMap_spaces (imports : List Import) (space : Identifier) :
    (imports.flatMap fun i => i.taken.space?.toList.map fun s => (s.text, i.specifier.text)).lookup space.text
      = (imports.find? fun i => i.taken.space? = some space).map (·.specifier.text) := by
  induction imports with
  | nil => rfl
  | cons i imports ih =>
    rw [List.flatMap_cons, List.lookup_append, lookup_map_text id (fun _ => rfl), ih,
      List.find?_cons]
    cases hs : i.taken.space? with
    | none => simp
    | some s => by_cases h : s = space <;> simp [h]

section Distinct

variable {imports : List Import}

theorem nodup_text_of_sublist (h : (imports.flatMap Import.locals).Nodup)
    (part : Import → List Identifier) (hpart : ∀ i, (part i).Sublist i.locals) :
    ((imports.flatMap part).map Identifier.text).Nodup := by
  have hsub : (imports.flatMap part).Sublist (imports.flatMap Import.locals) :=
    List.Sublist.flatMap_right imports fun i _ => hpart i
  exact (h.sublist hsub).map fun _ _ => Identifier.text_inj.1

theorem lookup_typeBindings (h : (imports.flatMap Import.locals).Nodup) (name : Identifier) :
    (typeBindings (imports.map Import.decl)).lookup name.text
      = (imports.findSome? fun i => (i.typeNamed? name).map fun there => (i, there)).map
          fun found => (found.1.specifier.text, found.2.text) := by
  have hkeys : ((imports.flatMap Import.types).map Prod.fst).Nodup := by
    have hnodup := nodup_text_of_sublist h
      (fun i => i.taken.named.map localName ++ i.defaultName.toList)
      fun i => List.sublist_append_left _ _
    simpa [List.map_flatMap, Import.types, Function.comp_def] using hnodup
  rw [typeBindings_decl, lookup_reverse hkeys, lookup_flatMap_types]

theorem lookup_namespaceBindings (h : (imports.flatMap Import.locals).Nodup) (space : Identifier) :
    (namespaceBindings (imports.map Import.decl)).lookup space.text
      = (imports.find? fun i => i.taken.space? = some space).map (·.specifier.text) := by
  have hkeys : ((imports.flatMap fun i =>
      i.taken.space?.toList.map fun s => (s.text, i.specifier.text)).map Prod.fst).Nodup := by
    have hnodup := nodup_text_of_sublist h (fun i => i.taken.space?.toList)
      fun i => List.sublist_append_right _ _
    simpa [List.map_flatMap, Function.comp_def] using hnodup
  rw [namespaceBindings_decl, lookup_reverse hkeys, lookup_flatMap_spaces]

/-- The text of a type names the module of every imported type. -/
theorem qualify_pieces (h : (imports.flatMap Import.locals).Nodup) (t : TypeExpr) :
    TypeSource.qualify (imports.map Import.decl) (t.pieces []) = t.render (inModule imports) := by
  refine TypeExpr.flatMap_pieces (fun _ => rfl) (fun name => ?_) (fun space name => ?_) [] t
  · rw [TypePiece.qualify, lookup_typeBindings h, inModule]
    cases imports.findSome? fun i => (i.typeNamed? name).map fun there => (i, there) <;> rfl
  · rw [TypePiece.qualify, lookup_namespaceBindings h, inModule]
    cases imports.find? fun i => i.taken.space? = some space <;> rfl

end Distinct

/-! ## Reading the trees -/

theorem unquote_quoted (v : StringValue) : unquote v.quoted = v.text := unquote_of_quotes rfl v.text

namespace Identifier

theorem mem_chars (i : Identifier) {c : Char} (h : c ∈ i.text) :
    isWordChar c = true ∧ isBlank c = false := by
  simpa using List.all_eq_true.1 i.chars c h

theorem lastName_text (i : Identifier) : lastName i.text = i.text := by
  have htrim : Text.trim i.text = i.text :=
    (Text.trimmed_of_not_blank fun c hc => (i.mem_chars hc).2).trim_eq
  have hdot : ∀ c ∈ i.text.reverse, decide (c ≠ '.') = true := fun c hc => by
    rw [decide_eq_true_eq]
    rintro rfl
    exact absurd (i.mem_chars (List.mem_reverse.1 hc)).1 (by decide)
  rw [lastName, htrim, Text.afterLast, List.takeWhile_eq_self_iff.2 hdot, List.reverse_reverse, htrim]

end Identifier

theorem read_argument (v : StringValue) : v.node.read = v.argument := by
  simp [StringValue.node, ArgumentNode.read, StringValue.argument, unquote_quoted]

theorem read_decorator (d : Decorator) : d.node.read = d.decl := by
  simp [Decorator.node, DecoratorNode.read, Decorator.decl, d.name.lastName_text, read_argument,
    Function.comp_def]

theorem read_import (i : Import) : i.node.read = i.decl := by
  simp only [Import.node, ImportNode.read, Import.decl, unquote_quoted, List.map_map, Function.comp_def]
  congr 1
  refine List.map_congr_left fun n _ => ?_
  obtain ⟨name, other⟩ := n
  cases other <;> rfl

section Distinct

variable {imports : List Import}

theorem read_parameter (h : (imports.flatMap Import.locals).Nodup) (p : Parameter) :
    p.node.read (imports.map Import.decl) = p.decl imports := by
  simp [Parameter.node, ParameterNode.read, Parameter.decl, read_decorator, qualify_pieces h,
    TypeExpr.text_pieces, Function.comp_def]

theorem read_method (h : (imports.flatMap Import.locals).Nodup) (m : Method) :
    m.node.read (imports.map Import.decl) (m.decorators.map Decorator.node) = m.decl imports := by
  simp [Method.node, MethodNode.read, Method.decl, read_decorator, read_parameter h, qualify_pieces h,
    TypeExpr.text_pieces, Function.comp_def]

/-- Decorators gather up to the method that they precede. -/
theorem readMembers_decorators (decls : List ImportDecl) (ds : List DecoratorNode)
    (m : MethodNode) (rest : List Member) (gathered : List DecoratorNode) :
    readMembers decls gathered (ds.map Member.decorator ++ .method m :: rest)
      = m.read decls (gathered ++ (ds ++ m.decorators)) :: readMembers decls [] rest := by
  induction ds generalizing gathered with
  | nil => rfl
  | cons d ds ih =>
    rw [List.map_cons, List.cons_append, readMembers, ih, List.append_assoc, List.singleton_append,
      List.cons_append]

theorem readMembers_methods (h : (imports.flatMap Import.locals).Nodup) (ms : List Method) :
    readMembers (imports.map Import.decl) [] (ms.flatMap Method.members)
      = ms.map (Method.decl imports) := by
  induction ms with
  | nil => rfl
  | cons m ms ih =>
    have hsplit : (m :: ms).flatMap Method.members
        = (m.decorators.map Decorator.node).map Member.decorator
          ++ .method m.node :: ms.flatMap Method.members := by
      simp [Method.members, Function.comp_def]
    have hown : m.node.decorators = [] := rfl
    rw [hsplit, readMembers_decorators, List.nil_append, hown, List.append_nil, read_method h, ih,
      List.map_cons]

theorem read_class (h : (imports.flatMap Import.locals).Nodup) (c : Class) :
    c.node.read (imports.map Import.decl) (c.decorators.map Decorator.node) = c.decl imports := by
  simp [Class.node, ClassNode.read, Class.decl, read_decorator, readMembers_methods h,
    Identifier.declared, Function.comp_def]

end Distinct

end NestClient.TypeScript.Printed

namespace NestClient.TypeScript

/-! ## Lines -/

def MethodNode.anywhere (m : MethodNode) : MethodNode := { m with line := 1 }

def Member.anywhere : Member → Member
  | .decorator d => .decorator d
  | .comment => .comment
  | .method m => .method m.anywhere
  | .other => .other

def ClassNode.anywhere (c : ClassNode) : ClassNode :=
  { c with members := c.members.map Member.anywhere, line := 1 }

/-- The statement without the lines that a class and its methods stand on. -/
def Statement.anywhere : Statement → Statement
  | .importing i => .importing i
  | .classDecl outer c => .classDecl outer c.anywhere
  | .bindings declared => .bindings declared
  | .other => .other

theorem readMembers_anywhere (imports : List ImportDecl) (gathered : List DecoratorNode)
    (ms : List Member) :
    readMembers imports gathered (ms.map Member.anywhere)
      = (readMembers imports gathered ms).map MethodDecl.anywhere := by
  induction ms generalizing gathered with
  | nil => rfl
  | cons m ms ih =>
    cases m with
    | decorator d => simpa [Member.anywhere, readMembers] using ih (gathered ++ [d])
    | comment => simpa [Member.anywhere, readMembers] using ih gathered
    | method m => simpa [Member.anywhere, readMembers] using ⟨rfl, ih []⟩
    | other => simpa [Member.anywhere, readMembers] using ih []

namespace Statement

theorem import?_anywhere (s : Statement) : s.anywhere.import? = s.import? := by cases s <;> rfl

theorem constants_anywhere (s : Statement) : s.anywhere.constants = s.constants := by cases s <;> rfl

theorem class?_anywhere (imports : List ImportDecl) (s : Statement) :
    s.anywhere.class? imports = (s.class? imports).map ClassDecl.anywhere := by
  cases s with
  | classDecl outer c =>
    simp [Statement.anywhere, Statement.class?, ClassNode.read, ClassNode.anywhere, ClassDecl.anywhere,
      readMembers_anywhere]
  | _ => rfl

end Statement

/-! ## Files -/

namespace Printed

theorem imports_statements (f : File) :
    f.statements.filterMap Statement.import? = f.imports.map Import.decl := by
  simp [File.statements, List.filterMap_map, Function.comp_def, Statement.import?, read_import,
    Constant.statement, Class.statement]

theorem constants_statements (f : File) :
    f.statements.flatMap Statement.constants = f.constants.map Constant.decl := by
  have hone (c : Constant) : c.statement.constants = [c.decl] := by
    obtain ⟨first, rest, hname⟩ : ∃ first rest, c.name.text = first :: rest := by
      cases hname : c.name.text with
      | nil => exact absurd c.name.start (by simp [hname])
      | cons first rest => exact ⟨first, rest, rfl⟩
    simp [Constant.statement, Statement.constants, Constant.decl, hname, Expr.literal?, unquote_quoted]
  have himport (i : Import) : (Statement.importing i.node).constants = [] := rfl
  have hclass (c : Class) : c.statement.constants = [] := rfl
  have hnone {α : Type} (l : List α) : l.flatMap (fun _ => ([] : Constants)) = [] := by simp
  simp only [File.statements, List.flatMap_append, List.flatMap_map, himport, hone, hclass, hnone,
    List.nil_append, List.append_nil]
  exact List.map_eq_flatMap.symm

theorem classes_statements {f : File} (h : (f.imports.flatMap Import.locals).Nodup) :
    f.statements.filterMap (·.class? (f.imports.map Import.decl))
      = f.classes.map (Class.decl f.imports) := by
  simp [File.statements, List.filterMap_map, Function.comp_def, Statement.class?, Constant.statement,
    Class.statement, read_class h]

end Printed

/-- Statements that differ from those of a written file in the lines they stand on only are read as
what is written. -/
theorem readFile_printed {path : Text} {statements : List Statement} {f : Printed.File}
    (hlocals : (f.imports.flatMap Printed.Import.locals).Nodup)
    (h : statements.map Statement.anywhere = f.statements) :
    (readFile path statements).imports = f.imports.map Printed.Import.decl
      ∧ (readFile path statements).constants = f.constants.map Printed.Constant.decl
      ∧ (readFile path statements).classes.map ClassDecl.anywhere
        = f.classes.map (Printed.Class.decl f.imports) := by
  have himports : statements.filterMap Statement.import? = f.imports.map Printed.Import.decl := by
    rw [← Printed.imports_statements, ← h]
    simp [List.filterMap_map, Statement.import?_anywhere]
  refine ⟨himports, ?_, ?_⟩
  · rw [← Printed.constants_statements, ← h, readFile]
    simp [List.flatMap_map, Statement.constants_anywhere]
  · rw [← Printed.classes_statements hlocals, ← h, readFile, himports]
    simp [List.filterMap_map, List.map_filterMap, Statement.class?_anywhere]

end NestClient.TypeScript
