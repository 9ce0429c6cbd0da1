import SheetFormula.Formula.Fault

/-!
# Faults of formatting

What keeps an expression from being laid out, and what keeps a formula from being beautified:
a fault of its text, or one of its layout.

## Main definitions

* `FormatFault`, `FormatFault.message` — causes in the expression or the style
* `BeautifyFault`, `BeautifyFault.message` — causes in the formula or its layout
-/

namespace SheetFormula

/-- The widest indentation step, in spaces. -/
def widestIndent : Nat := 64

/-- Widths are counted in words of 64 bits, and stay below this limit. -/
def widthLimit : Nat := 18446744073709551616

/-- A fault that formatting meets. -/
inductive FormatFault where
  /-- A call has no function name. -/
  | emptyName
  /-- A call has a name that holds other than name characters. -/
  | invalidName (name : Text)
  /-- The style asks for a wider indentation step than `widestIndent`. -/
  | indentTooWide (size : Nat)
  /-- The indentation at a depth is too wide to be written. -/
  | indentOverflow (depth : Nat)
  deriving DecidableEq

/-- The wording of a formatting fault. -/
def FormatFault.message : FormatFault → String
  | emptyName => "Function node has an empty name"
  | invalidName name => s!"Invalid function name: {String.ofList name}"
  | indentTooWide size => s!"Indent size {size} exceeds the maximum of {widestIndent}"
  | indentOverflow depth => s!"Indentation at depth {depth} overflows"

/-- A fault that strict beautifying meets. -/
inductive BeautifyFault where
  /-- The formula is at fault. -/
  | reading (fault : Fault)
  /-- Its layout is at fault. -/
  | format (fault : FormatFault)
  deriving DecidableEq

/-- The wording of a fault of beautifying, which names the stage. -/
def BeautifyFault.message : BeautifyFault → String
  | reading fault => s!"Parse error: {fault.message}"
  | format fault => s!"Format error: {fault.message}"

end SheetFormula
