import NestClient.Text.Basic
import NestClient.Text.Ranges

/-! Blank characters: Unicode white space and the four information separators. -/

namespace NestClient

/-- The blank characters as ranges of code points. -/
def blankRanges : CodeRanges := [
  (9, 13), (28, 32), (133, 133), (160, 160), (5760, 5760), (8192, 8202), (8232, 8233),
  (8239, 8239), (8287, 8287), (12288, 12288)]

/-- White space or an information separator. -/
def isBlank (c : Char) : Bool := blankRanges.contains c

namespace Text

def trim (t : Text) : Text := trimBy isBlank t

end Text

end NestClient
