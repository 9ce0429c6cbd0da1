import SheetFormula.Text.Basic

/-!
# Faults of a formula

What can be wrong with the text of a formula. Positions count the characters of the formula body,
which begins after the equals sign.

## Main definitions

* `Fault` — the causes
* `Fault.message` — their wording
-/

namespace SheetFormula

/-- A fault in the text of a formula. -/
inductive Fault where
  /-- The parenthesis opened at the position is never closed. -/
  | unclosedParenthesis (position : Nat)
  /-- The closing parenthesis at the position has no partner. -/
  | unmatchedCloseParenthesis (position : Nat)
  /-- The string literal that starts at the position is never closed. -/
  | unterminatedString (position : Nat)
  /-- A function name without parentheses stands where a call must. -/
  | missingArgumentList (name : Text) (position : Nat)
  deriving DecidableEq

/-- The wording of a fault. -/
def Fault.message : Fault → String
  | unclosedParenthesis position =>
    s!"Unclosed parenthesis opened at position {position}"
  | unmatchedCloseParenthesis position =>
    s!"Unmatched closing parenthesis at position {position}"
  | unterminatedString position =>
    s!"Unterminated string literal starting at position {position}"
  | missingArgumentList name position =>
    s!"Function {String.ofList name} has no argument list at position {position}"

end SheetFormula
