import NestClient.CommandLine.Layout

/-! Tables with a frame of lines. A cell can have several lines; every column is as wide as its
longest line, with one blank on both sides. -/

namespace NestClient.Table

/-- Copies of a character. -/
def run (n : Nat) (c : Char) : Text := List.replicate n c

def widths (rows : List (List Text)) : List Nat :=
  rows.foldl (fun widest row =>
    row.zipIdx.map fun (cell, i) => max (Layout.widthOf cell) (widest.getD i 0)) []

/-- A line between two rows. -/
def rule (left line crossing right : Char) (widths : List Nat) : Text :=
  left :: Text.join [crossing] (widths.map fun w => run (w + 2) line) ++ [right]

/-- A line of a cell between blanks; a cell that has no such line is empty there. -/
def padded (width : Nat) (line? : Option Text) : Text :=
  ' ' :: line?.getD (Text.blanks width) ++ [' ']

def rowLines (bar : Char) (widths : List Nat) (row : List Text) : List Text :=
  let cells := (row.zip widths).map fun (cell, width) => (width, Layout.lines width cell)
  let height := cells.foldl (fun height (_, lines) => max height lines.length) 1
  (List.range height).map fun i =>
    bar :: Text.join [bar] (cells.map fun (width, lines) => padded width lines[i]?) ++ [bar]

/-- The lines of a table with a heavy frame around its header. -/
def lines (header : List Text) (rows : List (List Text)) : List Text :=
  let ws := widths (header :: rows)
  [rule '┏' '━' '┳' '┓' ws] ++ rowLines '┃' ws header ++ [rule '┡' '━' '╇' '┩' ws]
    ++ rows.flatMap (rowLines '│' ws) ++ [rule '└' '─' '┴' '┘' ws]

end NestClient.Table
