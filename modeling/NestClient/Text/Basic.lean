/-! Text as its characters in order: cutting at separators, joining, replacing and comparing. -/

namespace NestClient

/-- A text is the list of its characters. -/
abbrev Text := List Char

namespace Text

/-- Puts a character in front of the first piece. -/
def lengthenHead (c : Char) : List Text → List Text
  | [] => [[c]]
  | piece :: pieces => (c :: piece) :: pieces

/-- The pieces between the occurrences of a separator; there is always at least one. -/
def split (sep : Char) : Text → List Text
  | [] => [[]]
  | c :: rest => if c = sep then [] :: split sep rest else lengthenHead c (split sep rest)

/-- The texts in order with a separator between neighbours. -/
def join (sep : Text) (parts : List Text) : Text := List.intercalate sep parts

/-- The text without the characters of a class at both ends. -/
def trimBy (p : Char → Bool) (t : Text) : Text :=
  ((t.dropWhile p).reverse.dropWhile p).reverse

/-- The text without the characters of a class at its end. -/
def trimEndBy (p : Char → Bool) (t : Text) : Text := (t.reverse.dropWhile p).reverse

/-- What follows `lead` at the start of the text. -/
def dropLead? (lead t : Text) : Option Text := lead.isPrefixOf? t

/-- What stands before `tail` at the end of the text. -/
def dropTail? (tail t : Text) : Option Text := tail.isSuffixOf? t

def occurs (needle : Text) : Text → Bool
  | [] => needle.isEmpty
  | c :: rest => needle.isPrefixOf (c :: rest) || occurs needle rest

def replaceChar (old : Char) (new : Text) (t : Text) : Text :=
  t.flatMap fun c => if c = old then new else [c]

/-- What follows the last occurrence of a character; the whole text where there is none. -/
def afterLast (sep : Char) (t : Text) : Text := (t.reverse.takeWhile (· ≠ sep)).reverse

/-- Order by code points, position by position. -/
def le : Text → Text → Bool
  | [], _ => true
  | _ :: _, [] => false
  | a :: s, b :: t => a < b || (a = b && le s t)

def ofNat (n : Nat) : Text := Nat.toDigits 10 n

/-- Line ends of all three kinds become line feeds. -/
def normalizeNewlines : Text → Text
  | '\r' :: '\n' :: rest => '\n' :: normalizeNewlines rest
  | '\r' :: rest => '\n' :: normalizeNewlines rest
  | c :: rest => c :: normalizeNewlines rest
  | [] => []

/-- Puts an element before the first one that it may precede. -/
def insertBy {α : Type} (before : α → α → Bool) (a : α) : List α → List α
  | [] => [a]
  | b :: rest => if before a b then a :: b :: rest else b :: insertBy before a rest

/-- The elements in an order; those that may precede each other keep their places. -/
def sortBy {α : Type} (before : α → α → Bool) (items : List α) : List α :=
  items.foldr (insertBy before) []

/-- Distinct elements in the order of their first occurrences. -/
def distinct {α : Type} [BEq α] (items : List α) : List α :=
  items.foldl (fun seen item => if seen.contains item then seen else seen ++ [item]) []

end Text

end NestClient
