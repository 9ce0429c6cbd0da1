/-!
# Tables of code points

A character class of a standard is a table of inclusive ranges of code points, written in
increasing order. The look-up leaves the table at the first range that starts beyond the code.

## Main definitions

* `CodeTable` — inclusive ranges, increasing and apart
* `CodeTable.covers` — membership of a code point
-/

namespace SheetFormula

/-- Inclusive ranges of code points, each starting after the end of the one before. -/
abbrev CodeTable := List (Nat × Nat)

/-- Whether a range of the table holds the code point. -/
def CodeTable.covers : CodeTable → Nat → Bool
  | [], _ => false
  | (first, last) :: ranges, code =>
    if code < first then false
    else if code ≤ last then true
    else covers ranges code

end SheetFormula
