import SheetFormula.Format.Fault

/-!
# Styles

How a formula is laid out: the indentation of nested calls, the connectors in front of their
arguments, the spaces around operators, and how much a call may hold on one line.

## Main definitions

* `Style` — the settings with their defaults
* `Style.fault?`, `Style.indentFault?` — what a layout cannot honour
-/

namespace SheetFormula

/-- The settings of a layout. -/
structure Style where
  /-- Draw a connector in front of every argument of a broken call. -/
  useNestingIndicators : Bool := true
  /-- Set operators inside leaves between spaces. -/
  useOperatorSpacing : Bool := true
  /-- Spaces per level of nesting. -/
  indentSize : Nat := 4
  /-- The most characters of arguments that a call keeps on one line. -/
  maxInlineLength : Nat := 40
  /-- The most arguments that a call keeps on one line. -/
  maxInlineParams : Nat := 3
  deriving DecidableEq

namespace Style

/-- The style that applies where nothing else is asked for. -/
def standard : Style := {}

/-- The fault of a style whose indentation step is too wide. -/
def fault? (style : Style) : Option FormatFault :=
  if widestIndent < style.indentSize then some (.indentTooWide style.indentSize) else none

/-- The fault of an indentation at a depth that is too wide. -/
def indentFault? (style : Style) (depth : Nat) : Option FormatFault :=
  if style.indentSize * depth < widthLimit then none else some (.indentOverflow depth)

end Style

end SheetFormula
