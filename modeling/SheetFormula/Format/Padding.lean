import SheetFormula.Formula.Operator
import SheetFormula.Text.Identifier
import SheetFormula.Text.Literal

/-!
# Operators between spaces

Most operators are parts of an expression and get their spaces when it is laid out. This module
treats the operators that a leaf still holds: its text is cut into pieces, every operator is set
between spaces, runs of blanks shrink to one space, and the blanks that would break a signed
number, a range or an absolute reference are taken out again. A literal is one piece that no step
looks into.

## Main definitions

* `addPadding` — spaces around the operators that touch no blank yet
* `collapseBlanks` — one space for every run of blanks
* `Rule`, `replaceAll` — the leftmost matches of a rule, replaced one after the other
* `signedNumber?`, `tightRange?`, `absoluteColumnReference?`, `absoluteRowReference?` — what is
  written without blanks
* `Text.spaced` — all steps
-/

namespace SheetFormula

/-! ## Padding -/

/-- The operator at the start of the pieces, if it is one of those that are padded. -/
def paddedOperator? (ps : List Piece) : Option Operator :=
  (Operator.atStart? (textOf (ps.take 2))).filter fun op => op != .power && op != .range

/-- Blanks and characters of comparisons keep an operator beside them from being padded. -/
def forbidsPadding (neighbour : Option Piece) : Bool :=
  neighbour.any fun p => p.satisfies fun c =>
    Text.isBlank c || c == '<' || c == '>' || c == '=' || c == '!'

/-- A plus or a minus. -/
def Operator.isSign : Operator → Bool
  | plus | minus => true
  | _ => false

/-- The pieces of an operator. -/
def Operator.pieces (op : Operator) : List Piece :=
  op.lexeme.map Piece.char

/-- The run of numeral characters that ends with a piece, from the run before it. -/
def runBehind (run : Text) (p : Piece) : Text :=
  match p with
  | .char c => if Text.isNumeralChar c then run ++ [c] else []
  | .literal _ _ => []

/-- Sets operators between spaces, unless they touch a piece that blocks padding or are the sign
of an exponent. `before` is the piece in front, and `run` the numeral characters that end there. -/
def addPadding (before : Option Piece) (run : Text) : List Piece → List Piece
  | [] => []
  | p :: ps =>
    match paddedOperator? (p :: ps) with
    | none => p :: addPadding (some p) (runBehind run p) ps
    | some op =>
      if forbidsPadding before || forbidsPadding (ps.drop (op.width - 1)).head? ||
          (op.isSign && Text.awaitsExponent run) then
        op.pieces ++ addPadding op.pieces.getLast? [] (ps.drop (op.width - 1))
      else
        .char ' ' :: op.pieces ++ .char ' ' ::
          addPadding op.pieces.getLast? [] (ps.drop (op.width - 1))
termination_by ps => ps.length
decreasing_by
  · exact Nat.lt_succ_self _
  · rw [List.length_drop, List.length_cons]
    omega
  · rw [List.length_drop, List.length_cons]
    omega

/-! ## Blanks -/

/-- Whether the piece is a blank. -/
def Piece.isBlank (p : Piece) : Bool :=
  p.satisfies Text.isBlank

/-- One space for every run of two or more blanks; a single blank stays what it is. -/
def collapseBlanks : List Piece → List Piece
  | [] => []
  | [p] => [p]
  | p :: q :: ps =>
    if p.isBlank && q.isBlank then collapseBlanks (.char ' ' :: ps)
    else p :: collapseBlanks (q :: ps)
termination_by ps => ps.length

/-! ## Rules -/

/-- A rule matches at the start of the pieces or not at all. A match is what replaces the matched
pieces, and the pieces behind them. -/
abbrev Rule := List Piece → Option (List Piece × List Piece)

/-- Replaces the leftmost match of the rule and goes on behind it. A match must leave fewer pieces
than it started from. -/
def replaceAll (rule : Rule) : List Piece → List Piece
  | [] => []
  | p :: ps =>
    match rule (p :: ps) with
    | some (replacement, rest) =>
      if rest.length ≤ ps.length then replacement ++ replaceAll rule rest
      else p :: replaceAll rule ps
    | none => p :: replaceAll rule ps
termination_by ps => ps.length
decreasing_by
  · rw [List.length_cons]
    omega
  · exact Nat.lt_succ_self _
  · exact Nat.lt_succ_self _

/-- The pieces behind the blanks at the start. -/
def skipBlanks (ps : List Piece) : List Piece :=
  ps.dropWhile Piece.isBlank

/-- One piece of a class, and the pieces behind it. -/
def one? (p : Char → Bool) : List Piece → Option (Piece × List Piece)
  | [] => none
  | q :: qs => if q.satisfies p then some (q, qs) else none

/-- A dollar, if one stands at the start, and the pieces behind it. -/
def optionalDollar : List Piece → List Piece × List Piece
  | [] => ([], [])
  | q :: qs => if q.satisfies (· == '$') then ([q], qs) else ([], q :: qs)

/-- The longest run of a class, at least one piece, and the pieces behind it. -/
def run? (p : Char → Bool) (ps : List Piece) : Option (List Piece × List Piece) :=
  if (ps.takeWhile (·.satisfies p)).isEmpty then none
  else some (ps.takeWhile (·.satisfies p), ps.dropWhile (·.satisfies p))

/-- A minus with blanks before it and at least one behind it, and then a digit: the sign of a
number. The blanks go. -/
def signedNumber? : Rule := fun ps => do
  let (minus, behind) ← one? (· == '-') (skipBlanks ps)
  let (_, _) ← one? Text.isBlank behind
  let (digit, rest) ← one? Char.isDigit (skipBlanks behind)
  pure ([minus, digit], rest)

/-- Characters behind which a minus is a sign. -/
def precedesSign (c : Char) : Bool :=
  ['-', '+', '*', '/', '=', '<', '>', '!', '&', ','].contains c

/-- A signed number behind an operator or comma, where the blanks in front of the sign stay, or
behind an opening parenthesis, where they go. -/
def signedOperand? : Rule
  | [] => none
  | p :: ps =>
    if p.satisfies precedesSign then
      (signedNumber? (skipBlanks ps)).map fun found =>
        (p :: ps.takeWhile Piece.isBlank ++ found.1, found.2)
    else if p.satisfies (· == '(') then
      (signedNumber? ps).map fun found => (p :: found.1, found.2)
    else none

/-- Signs of numbers without blanks, also at the start of the text. -/
def tightenSigns (ps : List Piece) : List Piece :=
  match signedNumber? ps with
  | some (replacement, rest) => replacement ++ replaceAll signedOperand? rest
  | none => replaceAll signedOperand? ps

/-- A cell reference, letters and digits with perhaps a dollar between them. -/
def cellReference? : Rule := fun ps => do
  let (letters, behind) ← run? Char.isAlpha ps
  let (dollar, behind) := optionalDollar behind
  let (digits, rest) ← run? Char.isDigit behind
  pure (letters ++ dollar ++ digits, rest)

/-- A range between two cell references, without blanks around the colon. -/
def tightRange? : Rule := fun ps => do
  let (left, behind) ← cellReference? ps
  let (colon, behind) ← one? (· == ':') (skipBlanks behind)
  let (dollar, behind) := optionalDollar (skipBlanks behind)
  let (right, rest) ← cellReference? behind
  pure (left ++ colon :: dollar ++ right, rest)

/-- A reference with an absolute column, without blanks. -/
def absoluteColumnReference? : Rule := fun ps => do
  let (dollar, behind) ← one? (· == '$') ps
  let (letters, behind) ← run? Char.isAlpha (skipBlanks behind)
  let (second, behind) := optionalDollar (skipBlanks behind)
  let (digits, rest) ← run? Char.isDigit (skipBlanks behind)
  pure (dollar :: letters ++ second ++ digits, rest)

/-- A reference with an absolute row, without blanks. -/
def absoluteRowReference? : Rule := fun ps => do
  let (letters, behind) ← run? Char.isAlpha ps
  let (dollar, behind) ← one? (· == '$') (skipBlanks behind)
  let (digits, rest) ← run? Char.isDigit (skipBlanks behind)
  pure (letters ++ dollar :: digits, rest)

/-! ## All steps -/

/-- The pieces with operators between spaces and tight tokens tightened. -/
def spacedPieces (ps : List Piece) : List Piece :=
  let padded := collapseBlanks (addPadding none [] ps)
  let ranged := replaceAll tightRange? (tightenSigns padded)
  let absolute := replaceAll absoluteRowReference? (replaceAll absoluteColumnReference? ranged)
  trimEnds Piece.isBlank absolute

/-- The text with its operators set between spaces. -/
def Text.spaced (t : Text) : Text :=
  textOf (spacedPieces (SheetFormula.pieces t))

end SheetFormula
