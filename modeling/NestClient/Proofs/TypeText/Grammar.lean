import NestClient.TypeText.Arrays

/-! The grammar of type expressions: how a text reads as names, generic types, arrays, unions,
intersections, function types, tuples, object types and parentheses.

* `Reads`: the text, which may have blanks between its marks, is the type expression.
* `Phrase.arrays`: every `Array<…>` becomes the array type of what stands in it. -/

namespace NestClient.TypeText

/-! ## Type expressions -/

/-- What joins two types. -/
inductive Operator where
  | union
  | intersection
  deriving DecidableEq, Repr

namespace Operator

def mark : Operator → Char
  | union => '|'
  | intersection => '&'

/-- How tightly the operator binds. -/
def level : Operator → Nat
  | union => 1
  | intersection => 2

end Operator

/-- What becomes a type in brackets of its own. -/
inductive Shape where
  | tuple
  | object
  deriving DecidableEq, Repr

namespace Shape

def opening : Shape → Char
  | tuple => '['
  | object => '\x7b'

def closing : Shape → Char
  | tuple => ']'
  | object => '\x7d'

end Shape

/-- A phrase is a type, or a row of types between brackets. -/
inductive Part where
  | type
  | row
  deriving DecidableEq, Repr

inductive Phrase : Part → Type where
  | name (n : Text) : Phrase .type
  /-- A name that is applied to arguments, other than the one that makes array types. -/
  | generic (head : Text) (arguments : Phrase .row) : Phrase .type
  /-- The generic spelling of an array type. -/
  | arrayOf (element : Phrase .type) : Phrase .type
  /-- A type with the array suffix. -/
  | array (element : Phrase .type) : Phrase .type
  | operation (op : Operator) (first second : Phrase .type) : Phrase .type
  | function (parameters : Phrase .row) (result : Phrase .type) : Phrase .type
  | members (shape : Shape) (row : Phrase .row) : Phrase .type
  | paren (inner : Phrase .type) : Phrase .type
  | empty : Phrase .row
  | last (label : Option Text) (member : Phrase .type) : Phrase .row
  | cons (label : Option Text) (member : Phrase .type) (separator : Char) (rest : Phrase .row) : Phrase .row

namespace Phrase

/-- How tightly the outermost part of a type binds; names and what stands in brackets bind most tightly,
and so does what has the array suffix. -/
def level : Phrase .type → Nat
  | function _ _ => 0
  | operation op _ _ => op.level
  | _ => 3

/-- The type in which every `Array<…>` is the array type of what stands in it: with the suffix, and in
parentheses where it binds less tightly than that. -/
def arrays {k : Part} : Phrase k → Phrase k
  | name n => name n
  | generic head row => generic head row.arrays
  | arrayOf element => array (if element.level = 3 then element.arrays else paren element.arrays)
  | array element => array element.arrays
  | operation op first second => operation op first.arrays second.arrays
  | function row result => function row.arrays result.arrays
  | members shape row => members shape row.arrays
  | paren inner => paren inner.arrays
  | empty => empty
  | last label member => last label member.arrays
  | cons label member separator rest => cons label member.arrays separator rest.arrays

@[simp] theorem level_arrays (e : Phrase .type) : e.arrays.level = e.level := by
  cases e <;> rfl

end Phrase

/-! ## Reading -/

def Blanks (t : Text) : Prop := ∀ c ∈ t, isBlank c = true

/-- A character of a name: neither blank nor a mark of the grammar. -/
def isNamePart (c : Char) : Bool := !isBlank c && !"<>()[]\x7b\x7d|&,;:=".toList.contains c

structure IsTypeName (n : Text) : Prop where
  ne_nil : n ≠ []
  chars : ∀ c ∈ n, isNamePart c = true

theorem isTypeName_of_all {n : Text} (hne : n ≠ []) (h : n.all isNamePart = true) : IsTypeName n :=
  ⟨hne, List.all_eq_true.1 h⟩

/-- The name that makes array types. -/
def arrayWord : Text := "Array".toList

theorem isTypeName_arrayWord : IsTypeName arrayWord := isTypeName_of_all (by decide) (by decide)

/-- What stands before a type in a row: nothing, or a label and its colon. -/
inductive ReadsLabel : Option Text → Text → Prop where
  | none : ReadsLabel none []
  | some {label lead tail : Text} (hlabel : IsTypeName label) (hlead : Blanks lead)
      (htail : Blanks tail) : ReadsLabel (some label) (lead ++ (label ++ (tail ++ [':'])))

/-- The text reads as the phrase. An operand binds more tightly than its operator, where a second one may
have the same operator again; the array suffix belongs to what binds most tightly. -/
inductive Reads : {k : Part} → Phrase k → Text → Prop where
  | name {n lead tail : Text} (hname : IsTypeName n) (hlead : Blanks lead) (htail : Blanks tail) :
      Reads (.name n) (lead ++ (n ++ tail))
  | generic {head : Text} {row : Phrase .row} {lead s tail : Text} (hhead : IsTypeName head)
      (hne : head ≠ arrayWord) (hlead : Blanks lead) (hrow : Reads row s) (htail : Blanks tail) :
      Reads (.generic head row) (lead ++ (head ++ '<' :: (s ++ '>' :: tail)))
  | arrayOf {element : Phrase .type} {lead s tail : Text} (hlead : Blanks lead) (helement : Reads element s)
      (htail : Blanks tail) : Reads (.arrayOf element) (lead ++ (arrayWord ++ '<' :: (s ++ '>' :: tail)))
  | array {element : Phrase .type} {s mid tail : Text} (hlevel : element.level = 3)
      (helement : Reads element s) (hmid : Blanks mid) (htail : Blanks tail) :
      Reads (.array element) (s ++ '[' :: (mid ++ ']' :: tail))
  | operation {op : Operator} {first second : Phrase .type} {s u : Text} (hfirst : op.level < first.level)
      (hsecond : op.level ≤ second.level) (hs : Reads first s) (hu : Reads second u) :
      Reads (.operation op first second) (s ++ op.mark :: u)
  | function {row : Phrase .row} {result : Phrase .type} {lead s mid u : Text} (hlead : Blanks lead)
      (hrow : Reads row s) (hmid : Blanks mid) (hresult : Reads result u) :
      Reads (.function row result) (lead ++ '(' :: (s ++ ')' :: (mid ++ '=' :: '>' :: u)))
  | members {shape : Shape} {row : Phrase .row} {lead s tail : Text} (hlead : Blanks lead)
      (hrow : Reads row s) (htail : Blanks tail) :
      Reads (.members shape row) (lead ++ shape.opening :: (s ++ shape.closing :: tail))
  | paren {inner : Phrase .type} {lead s tail : Text} (hlead : Blanks lead) (hinner : Reads inner s)
      (htail : Blanks tail) : Reads (.paren inner) (lead ++ '(' :: (s ++ ')' :: tail))
  | empty {s : Text} (hs : Blanks s) : Reads .empty s
  | last {label : Option Text} {member : Phrase .type} {p s : Text} (hlabel : ReadsLabel label p)
      (hs : Reads member s) : Reads (.last label member) (p ++ s)
  | cons {label : Option Text} {member : Phrase .type} {separator : Char} {rest : Phrase .row}
      {p s u : Text} (hlabel : ReadsLabel label p) (hs : Reads member s)
      (hseparator : separator = ',' ∨ separator = ';') (hu : Reads rest u) :
      Reads (.cons label member separator rest) (p ++ (s ++ separator :: u))

end NestClient.TypeText
