import NestClient.Proofs.TypeScript.SoundCursor
import NestClient.TypeScript.Grammar.File

/-! Every rule of the grammar leads from sound cursors to sound ones, if the goals inside it are read so;
then every goal is. -/

namespace NestClient.TypeScript

-- the instance of a rule is put together from one for each of its steps
set_option synthInstance.maxSize 40000

open Parse

/-- The goals inside others are read from sound cursors to sound ones. -/
class Rules.Keeps (r : Rules) : Prop where
  read : ∀ g, Parse.Keeps (r.read g)

namespace Rules

variable {r : Rules} [hr : r.Keeps]

instance (pending : Pending) (semicolon : Bool) :
    Parse.Keeps (r.read (.expression pending semicolon) : Parse Expr) := hr.read _

/-! ## Names and blocks -/

instance : Parse.Keeps r.type := hr.read _

instance (e : Ending) : Parse.Keeps (r.typeBefore e) := hr.read _

instance (semicolon : Bool) : Parse.Keeps (r.expression semicolon) := hr.read _

instance : Parse.Keeps r.operand := by
  unfold operand; infer_instance

instance : Parse.Keeps r.pattern := hr.read _

instance : Parse.Keeps r.statement := hr.read _

instance (semicolon : Bool) : Parse.Keeps (r.sequence semicolon) := by
  unfold sequence
  refine .bind fun es => ?_
  split <;> infer_instance

instance : Parse.Keeps r.block := by
  unfold block; infer_instance

instance : Parse.Keeps r.functionBody := by
  unfold functionBody; infer_instance

instance : Parse.Keeps r.propertyName := by
  unfold propertyName; infer_instance

instance : Parse.Keeps memberName := by
  unfold memberName; infer_instance

instance : Parse.Keeps r.dottedName := by
  unfold dottedName; infer_instance

instance (e : Ending) (marks : List Char) : Parse.Keeps (isNamed e marks) := by
  unfold isNamed; infer_instance

instance (slots fields : List Slots) (marks : List Char) (never : List String) :
    Parse.Keeps (r.modifiers slots fields marks never) := by
  unfold modifiers; infer_instance

/-! ## Parameters -/

instance : Parse.Keeps r.spreadable := by
  unfold spreadable; infer_instance

instance : Parse.Keeps r.arguments := by
  unfold arguments; infer_instance

instance {first : Parse Unit} [Parse.Keeps first] : Parse.Keeps (r.typesFrom first) := by
  unfold typesFrom; infer_instance

instance : Parse.Keeps r.typeArguments := by
  unfold typeArguments; infer_instance

instance : Parse.Keeps (decorator.call r) := by
  unfold decorator.call; infer_instance

instance : Parse.Keeps r.decorator := by
  unfold decorator; infer_instance

instance : Parse.Keeps r.decorators := by
  unfold decorators; infer_instance

instance (semicolon : Bool) : Parse.Keeps (r.initializer semicolon) := by
  unfold initializer; infer_instance

instance : Parse.Keeps r.restPattern := by
  unfold restPattern; infer_instance

instance : Parse.Keeps r.patternElement := by
  unfold patternElement; infer_instance

instance : Parse.Keeps r.patternEntry := by
  unfold patternEntry; infer_instance

instance : Parse.Keeps r.destructuring? := by
  unfold destructuring?; infer_instance

instance : Parse.Keeps r.patternRule := by
  unfold patternRule; infer_instance

instance : Parse.Keeps r.binding := by
  unfold binding; infer_instance

instance : Parse.Keeps r.skipParameterModifiers := by
  unfold skipParameterModifiers; infer_instance

instance : Parse.Keeps optionMark := by
  unfold optionMark; infer_instance

instance : Parse.Keeps r.parameter := by
  unfold parameter; infer_instance

instance : Parse.Keeps r.parameters := by
  unfold parameters; infer_instance

instance : Parse.Keeps r.typeParameter := by
  unfold typeParameter; infer_instance

instance : Parse.Keeps r.typeParameters := by
  unfold typeParameters; infer_instance

/-! ## Types -/

theorem keepsAt_twoPart {c : Cursor} (hword : c.next.kind = .word) : KeepsAt c do
    discard (advance .space)
    mark "."
    if (← peek).kind = .word then discard (advance .memberName) else stuck where
  sound {source after _} hc h := by
    obtain ⟨_, behindSpace, hspace, hrest⟩ := bind_eq_ok h
    obtain ⟨_, behindDot, hdot, hlast⟩ := bind_eq_ok hrest
    obtain ⟨space, hspace, hspaceRole, hspaceWord⟩ := follows_advance hspace (hc.word hword)
    obtain ⟨dot, hdot, hdotRole⟩ := follows_mark hdot
    change (if behindDot.next.kind = .word then discard (advance .memberName) else stuck : Parse Unit)
      behindDot = _ at hlast
    split at hlast
    next hnext =>
      obtain ⟨member, hmember, hmemberRole, hmemberWord⟩ := follows_advance hlast (hdot.word hnext)
      exact hc.follows_twoPart hspace hdot hmember hspaceRole hdotRole (by rw [hmemberRole]; decide)
        hspaceWord hmemberWord
    next => cases hlast

instance : Parse.Keeps r.typeName := by
  unfold typeName
  refine .of_at fun c => .peek ?_
  split
  · exact .of_keeps
  next hword =>
    have hword : c.next.kind = .word := not_not.1 hword
    refine .ahead ?_
    split
    · exact .name hword (by decide)
    · refine .ahead ?_
      split
      · exact keepsAt_twoPart hword
      · exact .of_keeps

instance : Parse.Keeps r.typeReference := by
  unfold typeReference; infer_instance

instance (e : Ending) : Parse.Keeps (r.typeArguments? e) := by
  unfold typeArguments?; infer_instance

instance (e : Ending) (last : ValuePart) : Parse.Keeps (r.moduleStep e last) := by
  unfold moduleStep; infer_instance

instance (e : Ending) : Parse.Keeps (r.importType e) := by
  unfold importType; infer_instance

instance : Parse.Keeps element := by
  unfold element; infer_instance

instance (e : Ending) (last : ValuePart) : Parse.Keeps (r.valueStep e last) := by
  unfold valueStep; infer_instance

instance (e : Ending) : Parse.Keeps (r.typeQuery e) := by
  unfold typeQuery; infer_instance

instance (test : Token → Bool) : Parse.Keeps (subject test) := by
  unfold subject; infer_instance

instance (e : Ending) : Parse.Keeps (startsPredicate e) := by
  unfold startsPredicate; infer_instance

instance (e : Ending) : Parse.Keeps (r.returned e) := by
  unfold returned; infer_instance

instance (e : Ending) : Parse.Keeps (r.annotation e) := by
  unfold annotation; infer_instance

instance (e : Ending) : Parse.Keeps (r.returnType? e) := by
  unfold returnType?
  refine .bind fun t => ?_
  split
  · infer_instance
  · refine .bind fun colon => .bind fun _ => .bind fun start => .bind fun predicate => .bind fun leaves => ?_
    split <;> infer_instance

instance (e : Ending) : Parse.Keeps (r.signature e) := by
  unfold signature; infer_instance

theorem kind_of_isLabel {t : Token} (h : isLabel t = true) : t.kind = .word := by
  simp only [isLabel, isVariable, Bool.and_eq_true, decide_eq_true_eq] at h
  exact h.1.1

instance : Parse.Keeps r.indexKey := by
  unfold indexKey
  dsimp only
  refine .bind fun _ => .of_at fun c => .peek ?_
  split
  · exact .of_keeps
  next hlabel =>
    refine .ahead ?_
    split
    · split
      · exact .of_keeps
      · exact .bind (.name (kind_of_isLabel (by simpa using hlabel)) (by decide)) fun _ => inferInstance
    · exact .of_keeps

instance (e : Ending) : Parse.Keeps (r.indexSignature e) := by
  unfold indexSignature; infer_instance

instance : Parse.Keeps r.typeMember := by
  unfold typeMember; infer_instance

instance : Parse.Keeps r.objectType := by
  unfold objectType; infer_instance

instance : Parse.Keeps r.tupleElement := by
  unfold tupleElement; infer_instance

instance : Parse.Keeps r.templateType := by
  unfold templateType; infer_instance

instance (e : Ending) : Parse.Keeps (r.constructorType e) := by
  unfold constructorType; infer_instance

instance (e : Ending) : Parse.Keeps (r.functionType? e) := by
  unfold functionType?; infer_instance

instance (e : Ending) : Parse.Keeps (r.typeSuffixes e) := by
  unfold typeSuffixes; infer_instance

instance (e : Ending) : Parse.Keeps (r.wordType e) := by
  unfold wordType; infer_instance

instance : Parse.Keeps r.staysType := by
  unfold staysType; infer_instance

instance (e : Ending) : Parse.Keeps (r.typeAtom e) := by
  unfold typeAtom
  refine .bind fun t => ?_
  split <;> infer_instance

instance : Parse.Keeps r.skipTypeOperators := by
  unfold skipTypeOperators; infer_instance

instance (e : Ending) : Parse.Keeps (r.typeOperand e) := by
  unfold typeOperand
  refine .bind fun prefixed => .bind fun after => ?_
  split <;> infer_instance

instance (e : Ending) : Parse.Keeps (r.typeBranches e) := by
  unfold typeBranches; infer_instance

instance (e : Ending) : Parse.Keeps (r.typeRule e) := by
  unfold typeRule; infer_instance

/-! ## Classes -/

instance (e : Ending) : Parse.Keeps (memberEnd e) := by
  unfold memberEnd; infer_instance

instance (words : List Text) : Parse.Keeps (r.fieldRest words) := by
  unfold fieldRest; infer_instance

instance (decorated : Bool) (words : List Text) (name : Text) (line : Nat) :
    Parse.Keeps (r.methodRest decorated words name line) := by
  unfold methodRest; infer_instance

instance (decorated : Bool) : Parse.Keeps (r.memberRule decorated) := by
  unfold memberRule; infer_instance

instance : Parse.Keeps comments := by
  unfold comments; infer_instance

instance : Parse.Keeps r.memberDecorators := by
  unfold memberDecorators; infer_instance

instance : Parse.Keeps r.decoratedMember := by
  unfold decoratedMember
  refine .bind fun decorators => .bind fun member => ?_
  split <;> infer_instance

instance : Parse.Keeps r.members := by
  unfold members; infer_instance

instance : Parse.Keeps r.classBody := by
  unfold classBody; infer_instance

instance : Parse.Keeps r.classBase := by
  unfold classBase; infer_instance

instance : Parse.Keeps r.classRest := by
  unfold classRest; infer_instance

/-! ## Expressions -/

instance (form : Form) : Parse.Keeps (formed form) := by
  unfold formed; infer_instance

instance : Parse.Keeps r.objectMember := by
  unfold objectMember; infer_instance

instance : Parse.Keeps r.objectLiteral := by
  unfold objectLiteral; infer_instance

instance : Parse.Keeps r.arrayLiteral := by
  unfold arrayLiteral; infer_instance

instance (semicolon : Bool) {literal : Parse Expr} [Parse.Keeps literal] :
    Parse.Keeps (r.literalOrPattern semicolon literal) := by
  unfold literalOrPattern; infer_instance

instance : Parse.Keeps r.templateLiteral := by
  unfold templateLiteral; infer_instance

instance : Parse.Keeps r.functionValue := by
  unfold functionValue; infer_instance

instance : Parse.Keeps r.classValue := by
  unfold classValue; infer_instance

instance (semicolon : Bool) : Parse.Keeps (r.arrowRest semicolon) := by
  unfold arrowRest; infer_instance

instance : Parse.Keeps r.arrowHead := by
  unfold arrowHead; infer_instance

instance (semicolon : Bool) : Parse.Keeps (r.arrow? semicolon) := by
  unfold arrow?; infer_instance

instance (semicolon : Bool) : Parse.Keeps (r.nameRest semicolon) := by
  unfold nameRest; infer_instance

instance (semicolon : Bool) : Parse.Keeps (r.asyncValue semicolon) := by
  unfold asyncValue; infer_instance

instance (semicolon : Bool) : Parse.Keeps (r.newValue semicolon) := by
  unfold newValue; infer_instance

instance : Parse.Keeps r.importValue := by
  unfold importValue; infer_instance

instance (semicolon : Bool) : Parse.Keeps (r.yieldValue semicolon) := by
  unfold yieldValue; infer_instance

instance (semicolon : Bool) : Parse.Keeps (r.namespaceValue semicolon) := by
  unfold namespaceValue; infer_instance

instance (pending : Pending) (semicolon : Bool) (form : Form) :
    Parse.Keeps (r.prefixed pending semicolon form) := by
  unfold prefixed; infer_instance

instance (semicolon : Bool) : Parse.Keeps (r.usingValue semicolon) := by
  unfold usingValue
  refine .bind fun _ => .bind fun e => ?_
  split <;> infer_instance

instance (semicolon : Bool) : Parse.Keeps (r.wordValue semicolon) := by
  unfold wordValue; infer_instance

instance (first : Expr) : Parse.Keeps (r.parenthesizedRest first) := by
  unfold parenthesizedRest; infer_instance

instance : Parse.Keeps r.parenthesized := by
  unfold parenthesized; infer_instance

instance (semicolon : Bool) : Parse.Keeps (r.markValue semicolon) := by
  unfold markValue; infer_instance

instance (semicolon : Bool) : Parse.Keeps (r.operandRule semicolon) := by
  unfold operandRule
  refine .bind fun t => ?_
  split <;> infer_instance

instance : Parse.Keeps r.index := by
  unfold index; infer_instance

instance (pending : Pending) (e : Expr) : Parse.Keeps (r.optionalStep pending e) := by
  unfold optionalStep; infer_instance

instance (pending : Pending) (semicolon : Bool) : Parse.Keeps (typedEnd pending semicolon) := by
  unfold typedEnd; infer_instance

instance (semicolon : Bool) : Parse.Keeps (r.comparison semicolon) := by
  unfold comparison; infer_instance

instance (pending : Pending) (semicolon : Bool) : Parse.Keeps (r.typedStep pending semicolon) := by
  unfold typedStep
  dsimp only
  refine .bind fun t => .bind fun second => .bind fun called => ?_
  split
  · infer_instance
  · refine .bind fun typed => ?_
    split <;> infer_instance

instance (semicolon : Bool) : Parse.Keeps (r.branches semicolon) := by
  unfold branches; infer_instance

instance : Parse.Keeps startsBranches := by
  unfold startsBranches; infer_instance

instance (pending : Pending) (semicolon : Bool) (e : Expr) (t : Token) :
    Parse.Keeps (r.binaryStep pending semicolon e t) := by
  unfold binaryStep
  split
  · infer_instance
  · split
    · infer_instance
    · split <;> infer_instance

instance (semicolon : Bool) (e : Expr) : Parse.Keeps (r.castStep semicolon e) := by
  unfold castStep; infer_instance

instance (pending : Pending) (semicolon : Bool) (e : Expr) : Parse.Keeps (r.step pending semicolon e) := by
  unfold step; infer_instance

instance (pending : Pending) (semicolon : Bool) : Parse.Keeps (r.expressionRule pending semicolon) := by
  unfold expressionRule; infer_instance

/-! ## Statements -/

instance (decorators : List DecoratorNode) (line : Nat) :
    Parse.Keeps (r.classDeclaration decorators line) := by
  unfold classDeclaration; infer_instance

instance : Parse.Keeps r.declarator := by
  unfold declarator; infer_instance

instance : Parse.Keeps r.declarations := by
  unfold declarations; infer_instance

instance : Parse.Keeps r.functionDeclaration := by
  unfold functionDeclaration; infer_instance

instance : Parse.Keeps r.interfaceDeclaration := by
  unfold interfaceDeclaration; infer_instance

instance : Parse.Keeps r.typeAlias := by
  unfold typeAlias; infer_instance

instance : Parse.Keeps r.enumDeclaration := by
  unfold enumDeclaration; infer_instance

instance : Parse.Keeps r.namespaceDeclaration := by
  unfold namespaceDeclaration; infer_instance

instance : Parse.Keeps r.nameAlias := by
  unfold nameAlias; infer_instance

instance : Parse.Keeps r.moduleProperty := by
  unfold moduleProperty; infer_instance

instance : Parse.Keeps r.behindDecorators := by
  unfold behindDecorators; infer_instance

instance : Parse.Keeps standsAlone := by
  unfold standsAlone; infer_instance

instance (named : Bool) : Parse.Keeps (startsFunction named) := by
  unfold startsFunction; infer_instance

instance (outer : List DecoratorNode) (orExpression : Bool) :
    Parse.Keeps (r.declarationProper? outer orExpression) := by
  unfold declarationProper?; infer_instance

instance : Parse.Keeps r.ambient := by
  unfold ambient; infer_instance

instance (outer : List DecoratorNode) (orExpression : Bool) :
    Parse.Keeps (r.declaration? outer orExpression) := by
  unfold declaration?; infer_instance

instance : Parse.Keeps moduleName := by
  unfold moduleName; infer_instance

instance : Parse.Keeps moduleMember := by
  unfold moduleMember; infer_instance

instance : Parse.Keeps r.importEnd := by
  unfold importEnd; infer_instance

instance {α : Type} {item : Parse α} [Parse.Keeps item] : Parse.Keeps (r.nameList item) := by
  unfold nameList; infer_instance

instance : Parse.Keeps importSpecifier := by
  unfold importSpecifier; infer_instance

instance : Parse.Keeps namespaceImport := by
  unfold namespaceImport; infer_instance

instance : Parse.Keeps r.importClause := by
  unfold importClause; infer_instance

instance (modified : Bool) : Parse.Keeps (r.importBody modified) := by
  unfold importBody; infer_instance

instance : Parse.Keeps r.importStatement := by
  unfold importStatement; infer_instance

instance : Parse.Keeps exportSpecifier := by
  unfold exportSpecifier; infer_instance

instance : Parse.Keeps r.exportList := by
  unfold exportList; infer_instance

instance : Parse.Keeps exportAll := by
  unfold exportAll; infer_instance

instance (outer : List DecoratorNode) : Parse.Keeps (r.exported outer) := by
  unfold exported; infer_instance

instance : Parse.Keeps r.exportRest := by
  unfold exportRest; infer_instance

instance : Parse.Keeps r.eachHead := by
  unfold eachHead; infer_instance

instance : Parse.Keeps r.countHead := by
  unfold countHead; infer_instance

instance : Parse.Keeps r.forLoop := by
  unfold forLoop; infer_instance

instance : Parse.Keeps r.switchBody := by
  unfold switchBody; infer_instance

instance : Parse.Keeps r.tryBlock := by
  unfold tryBlock; infer_instance

instance : Parse.Keeps r.controlled? := by
  unfold controlled?; infer_instance

instance : Parse.Keeps r.expressionStatement := by
  unfold expressionStatement; infer_instance

instance : Parse.Keeps r.blockOrObject := by
  unfold blockOrObject; infer_instance

instance : Parse.Keeps r.plainStatement := by
  unfold plainStatement; infer_instance

omit hr in
/-- A declaration is read, or what stands in its place is, behind it or from the start again. -/
theorem declarationOr_eq_ok {p : Parse Statement} {c after : Cursor} {s : Statement}
    (h : r.declarationOr p c = .ok (s, after)) :
    ∃ found mid, r.declaration? [] true c = .ok (found, mid) ∧
      (p mid = .ok (s, after) ∨ p c = .ok (s, after) ∨ found = some s ∧ mid = after) := by
  unfold declarationOr at h
  obtain ⟨start, _, hstart, h⟩ := bind_eq_ok h
  cases hstart
  obtain ⟨found, mid, hfound, h⟩ := bind_eq_ok h
  refine ⟨found, mid, hfound, ?_⟩
  cases found with
  | none => exact .inl h
  | some found =>
    obtain ⟨t, _, ht, h⟩ := bind_eq_ok h
    cases ht
    obtain ⟨ends, _, hends, h⟩ := bind_eq_ok h
    cases hends
    split at h
    · exact .inr (.inl h)
    · cases h
      exact .inr (.inr ⟨rfl, rfl⟩)

instance {p : Parse Statement} [hp : Parse.Keeps p] : Parse.Keeps (r.declarationOr p) where
  sound hc h := by
    obtain ⟨found, mid, hfound, h⟩ := declarationOr_eq_ok h
    have hmid := Parse.Keeps.sound hc hfound
    rcases h with h | h | ⟨-, rfl⟩
    · exact hp.sound hmid h
    · exact hp.sound hc h
    · exact hmid

instance : Parse.Keeps r.decorated := by
  unfold decorated; infer_instance

instance : Parse.Keeps r.statementRule := by
  unfold statementRule; infer_instance

end Rules

/-! ## Goals -/

/-- Whatever goals stand inside each other, what reads them keeps cursors sound. -/
theorem keeps_readGoal (bound depth : Nat) (g : Goal) : Parse.Keeps (readGoal bound depth g) := by
  induction depth generalizing g with
  | zero => exact inferInstanceAs (Parse.Keeps stuck)
  | succ depth ih =>
    have hrules : Rules.Keeps ⟨bound, readGoal bound depth⟩ := ⟨ih⟩
    cases g with
    | type e => exact inferInstanceAs (Parse.Keeps (Rules.typeRule _ e))
    | expression pending semicolon =>
      exact inferInstanceAs (Parse.Keeps (Rules.expressionRule _ pending semicolon))
    | pattern => exact inferInstanceAs (Parse.Keeps (Rules.patternRule _))
    | statement => exact inferInstanceAs (Parse.Keeps (Rules.statementRule _))

end NestClient.TypeScript
