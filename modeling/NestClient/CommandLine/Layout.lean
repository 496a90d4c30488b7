import NestClient.Text.Blank
import NestClient.Text.Width

/-! How text is laid out on a terminal: which characters are left out, where tabs end, and how a line
is broken into lines of a limited width. -/

namespace NestClient.Layout

/-! ## Characters -/

/-- Controls that are left out: bell, backspace, vertical tab, form feed and carriage return. -/
def isDropped (c : Char) : Bool := [7, 8, 11, 12, 13].contains c.toNat

/-- Ends a line where the width of a text is measured. -/
def endsLine (c : Char) : Bool := c = '\n' || [28, 29, 30, 133, 8232, 8233].contains c.toNat

def tabWidth : Nat := 8

/-- A line with blanks for its tabs, from a column on. A tab ends at the next stop that lies beyond
it. -/
def expandTabsFrom (column : Nat) (pieces : List Text) : Text :=
  match pieces with
  | [] => []
  | [last] => last
  | piece :: more =>
    let reached := column + Text.columns piece + 1
    let stop := (reached + tabWidth - 1) / tabWidth * tabWidth
    piece ++ Text.blanks (stop + 1 - reached) ++ expandTabsFrom stop more

def expandTabs (line : Text) : Text := expandTabsFrom 0 (Text.split '\t' line)

/-- A text as it is printed on a terminal without an end on the right. -/
def printed (t : Text) : Text :=
  Text.join ['\n'] ((Text.split '\n' (t.filter (!isDropped ·))).map expandTabs)

/-! ## Widths -/

/-- The columns of a text's longest line, in which tabs count for nothing. -/
def widthOf (t : Text) : Nat :=
  let shown := (t.filter (!isDropped ·)).map fun c => if endsLine c then '\n' else c
  (Text.split '\n' shown).foldl (fun width line => max width (Text.columns line)) 0

/-! ## Breaking lines -/

/-- The words of a line after a piece of its first word: each with the blanks after it, the first one
also with those before it. -/
def wordsFrom (piece : Text) : Text → List Text
  | [] => [piece]
  | c :: rest =>
    if !isBlank c && piece.getLast?.any isBlank && !piece.all isBlank then
      piece :: wordsFrom [c] rest
    else wordsFrom (piece ++ [c]) rest

def words (line : Text) : List Text := wordsFrom [] line

/-- Puts words onto a line that has some already, as long as they fit, and then onto the next. -/
def fill (width : Nat) (line : Text) (column : Nat) : List Text → List Text
  | [] => [line]
  | word :: more =>
    let size := Text.columns (Text.trimEndBy isBlank word)
    if line.isEmpty || column + size ≤ width then
      fill width (line ++ word) (column + Text.columns word) more
    else line :: fill width word (Text.columns word) more

/-- A line without those blanks at its end that are too many. -/
def trimExcess (width : Nat) (line : Text) : Text :=
  let blank := (line.reverse.takeWhile isBlank).length
  line.take (line.length - min blank (line.length - width))

/-- A line in so many columns: an ellipsis stands for what is too much, blanks for what is missing. -/
def fit (width : Nat) (line : Text) : Text :=
  let size := Text.columns line
  if width < size then Text.crop (width - 1) line ++ ['…']
  else line ++ Text.blanks (width - size)

/-- The lines of a text within so many columns. -/
def lines (width : Nat) (t : Text) : List Text :=
  (Text.split '\n' (t.filter (!isDropped ·))).flatMap fun line =>
    (fill width [] 0 (words (expandTabs line))).map fun l => fit width (trimExcess width l)

end NestClient.Layout
