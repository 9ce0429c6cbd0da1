import SheetFormula.Text.Basic

/-!
# Argument separators

The arguments of a call stand between commas, or between semicolons where the comma is the
decimal mark. One semicolon outside string literals makes the semicolon the separator of the
whole formula.

## Main definitions

* `Separator`, `Separator.char` — the two separators
* `Separator.ofText` — the separator of a formula
-/

namespace SheetFormula

/-- The character between the arguments of a call. -/
inductive Separator where
  | comma
  | semicolon
  deriving DecidableEq

namespace Separator

/-- The separator of a text that shows none. -/
def standard : Separator := comma

/-- How the separator is written. -/
def char : Separator → Char
  | comma => ','
  | semicolon => ';'

/-- Looks for a semicolon outside quotes. Every quote, also one of a doubled pair, changes sides. -/
def ofTextFrom (quoted : Bool) : Text → Separator
  | [] => standard
  | c :: t =>
    if c = '"' then ofTextFrom (!quoted) t
    else if c = ';' ∧ quoted = false then semicolon
    else ofTextFrom quoted t

/-- The separator of a formula: the semicolon if one stands outside string literals. -/
def ofText (t : Text) : Separator :=
  ofTextFrom false t

end Separator

end SheetFormula
