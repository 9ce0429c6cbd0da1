import SheetFormula.Text.Basic
import SheetFormula.Text.Alphanumeric

/-!
# Names, references and numerals

Which characters make up a function name or continue a cell reference, and when the sign after a
text belongs to the exponent of a number.

## Main definitions

* `Text.isNameChar`, `Text.isReferencePart` — the two character classes
* `Text.cutBeforeName` — a text cut before the name at its end
* `Text.isMantissa` — digits with at most one dot
* `Text.awaitsExponent` — a text that ends in a number and `e` or `E`
-/

namespace SheetFormula.Text

/-- Characters of a function name or reference. The dot belongs to names such as `NORM.DIST`. -/
def isNameChar (c : Char) : Bool :=
  isAlphanumeric c || c == '_' || c == '.'

/-- Characters that continue a cell reference after a range colon: letters and digits without
accents, and the dollar of an absolute reference. -/
def isReferencePart (c : Char) : Bool :=
  c.isAlphanum || c == '$'

/-- The text before its longest final run of name characters, and that run. -/
def cutBeforeName (t : Text) : Text × Text :=
  (dropEndWhile isNameChar t, takeEndWhile isNameChar t)

/-- Characters of a number with an exponent, and of the names it could be mistaken for. -/
def isNumeralChar (c : Char) : Bool :=
  c.isAlphanum || c == '.'

/-- Digits with at most one dot among them, read on from where a digit and a dot were met or not. -/
def isMantissaFrom (digitMet dotMet : Bool) : Text → Bool
  | [] => digitMet
  | c :: t =>
    if c.isDigit then isMantissaFrom true dotMet t
    else if c == '.' && !dotMet then isMantissaFrom digitMet true t
    else false

/-- Digits with at most one dot among them. -/
def isMantissa (t : Text) : Bool :=
  isMantissaFrom false false t

/-- Whether the text ends in a number's exponent marker, like `1E` or `2.5e`. -/
def awaitsExponent (t : Text) : Bool :=
  let run := takeEndWhile isNumeralChar t
  run.getLast?.any (fun c => c == 'e' || c == 'E') && isMantissa run.dropLast

end SheetFormula.Text
