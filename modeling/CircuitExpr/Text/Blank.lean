/-
# Blanks

`isBlank` is the Unicode property `White_Space`: the space, the controls from tab
to carriage return, the next-line control, and the separators of lines,
paragraphs and words in all scripts.  It has 25 characters.
-/

import CircuitExpr.Text.CharRanges

namespace CircuitExpr
namespace Text

/-- The characters of the property `White_Space`. -/
def blankRanges : CharRanges := [
  (0x0009, 0x000D), (0x0020, 0x0020), (0x0085, 0x0085), (0x00A0, 0x00A0), (0x1680, 0x1680),
  (0x2000, 0x200A), (0x2028, 0x2029), (0x202F, 0x202F), (0x205F, 0x205F), (0x3000, 0x3000)
]

/-- Is this a character of the property `White_Space`? -/
def isBlank (c : Char) : Bool := blankRanges.contains c

end Text
end CircuitExpr
