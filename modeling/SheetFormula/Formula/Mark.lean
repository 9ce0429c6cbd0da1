import SheetFormula.Text.Indentation
import SheetFormula.Text.Literal

/-!
# Marks

A formula is read as a list of marks: its pieces, each with its position and with the word whether
it is layout. Both depend on the text in front, so they are fixed once for the whole body; a part
of the formula is then a sublist of marks, and needs no text around it.

## Main definitions

* `Mark` — a piece at its place
* `marks` — the marks of a text
* `Mark.sourceText` — the text that marks stand for
* `Mark.trimmed` — marks without the layout at both ends
-/

namespace SheetFormula

/-- A piece of a formula at its place. -/
structure Mark where
  /-- The number of characters before the piece. -/
  position : Nat
  /-- A blank, or a connector in the indentation of a line. -/
  isLayout : Bool
  /-- The character or literal itself. -/
  piece : Piece
  deriving DecidableEq

namespace Mark

/-- Places pieces from a position on, given whether that position stands in the indentation of a
line. -/
def place (position : Nat) (indented : Bool) : List Piece → List Mark
  | [] => []
  | p :: ps =>
    ⟨position, p.satisfies (Text.isLayout indented), p⟩ ::
      place (position + p.text.length) (p.text.foldl Text.staysIndented indented) ps

/-- The character at the mark, unless it is a literal. -/
def char? (m : Mark) : Option Char :=
  m.piece.char?

/-- Whether the mark is an unclosed literal. -/
def isUnclosed (m : Mark) : Bool :=
  m.piece.isUnclosed

/-- The text that the marks stand for. -/
def sourceText (ms : List Mark) : Text :=
  textOf (ms.map piece)

/-- The literal without the layout at its end, if it is unclosed. -/
def trimUnclosed (m : Mark) : Mark :=
  match m.piece with
  | .literal text false => { m with piece := .literal (Text.trimLayoutEnd text) false }
  | _ => m

/-- The marks without the layout at both ends. An unclosed literal runs to the end of the formula,
and gives up the layout at its own end. -/
def trimmed (ms : List Mark) : List Mark :=
  (trimEnds isLayout ms).map trimUnclosed

/-- Trimming makes no list of marks longer. -/
theorem length_trimmed_le (ms : List Mark) : (trimmed ms).length ≤ ms.length := by
  rw [trimmed, List.length_map, trimEnds]
  exact Nat.le_trans (length_dropEndWhile_le _ _) (length_dropWhile_le _ _)

end Mark

/-- The marks of a text. -/
def marks (t : Text) : List Mark :=
  Mark.place 0 false (pieces t)

end SheetFormula
