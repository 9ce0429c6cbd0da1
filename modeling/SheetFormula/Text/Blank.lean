import SheetFormula.Text.CodeTable

/-!
# Blank characters

`isBlank` is the Unicode property `White_Space`: the space, tabs and line breaks, the no-break
space and the wide spaces of typography, but no zero-width character.

## Main definitions

* `Text.blankTable` — the property as a table of code points
* `Text.isBlank` — membership of a character
-/

namespace SheetFormula.Text

/-- Code points with the property `White_Space`. -/
def blankTable : CodeTable := [
  (0x9, 0xd), (0x20, 0x20), (0x85, 0x85), (0xa0, 0xa0), (0x1680, 0x1680), (0x2000, 0x200a),
  (0x2028, 0x2029), (0x202f, 0x202f), (0x205f, 0x205f), (0x3000, 0x3000)]

/-- A character that only separates other characters. -/
def isBlank (c : Char) : Bool :=
  blankTable.covers c.toNat

end SheetFormula.Text
