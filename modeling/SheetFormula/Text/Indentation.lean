import SheetFormula.Text.Basic

/-!
# Layout

Blanks are layout everywhere. A connector, one of the line-drawing characters `├ └ ─ │`, is
layout only in the indentation of a line: between a line break and the first other character.
Elsewhere it is ordinary text.

## Main definitions

* `Text.isConnector` — the four characters that draw the branches of a call
* `Text.staysIndented` — whether the indentation of a line reaches past a character
* `Text.layoutFlags` — for each character of a text whether it is layout
* `Text.trimSpan`, `Text.trimLayoutEnd` — spans and texts without the layout around them
-/

namespace SheetFormula.Text

/-- The line-drawing characters that connect the arguments of a call. -/
def isConnector (c : Char) : Bool :=
  c == '├' || c == '└' || c == '─' || c == '│'

/-- A line break begins the indentation of a line; the first character that is neither blank nor a
connector ends it. -/
def staysIndented (indented : Bool) (c : Char) : Bool :=
  c == '\n' || c == '\r' || (indented && (isBlank c || isConnector c))

/-- Whether a character is layout, given whether it stands in the indentation of a line. -/
def isLayout (indented : Bool) (c : Char) : Bool :=
  isBlank c || (indented && isConnector c)

/-- For each character whether it is layout. -/
def layoutFlags : Bool → Text → List Bool
  | _, [] => []
  | indented, c :: t => isLayout indented c :: layoutFlags (staysIndented indented c) t

/-- Whether the character at a position is layout; false beyond the end. -/
def hasLayoutAt (t : Text) (position : Nat) : Bool :=
  ((layoutFlags false t)[position]?).getD false

/-- The positions from `start` to `stop` without the layout at both ends. The stop is first moved
back to the end of the text; a start behind it stays. -/
def trimSpan (t : Text) (start stop : Nat) : Nat × Nat :=
  let stop := min stop t.length
  let flags := ((layoutFlags false t).take stop).drop start
  let lead := (flags.takeWhile id).length
  let trail := (takeEndWhile id (flags.drop lead)).length
  (start + lead, stop - trail)

/-- The text without the layout at its end. -/
def trimLayoutEnd (t : Text) : Text :=
  t.take (dropEndWhile id (layoutFlags false t)).length

end SheetFormula.Text
