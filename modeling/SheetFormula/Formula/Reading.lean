import SheetFormula.Formula.Bracket
import SheetFormula.Formula.Expression
import SheetFormula.Formula.Fault
import SheetFormula.Formula.FunctionName
import SheetFormula.Text.Identifier

/-!
# Reading marks

The marks of a formula become expressions from left to right. Characters collect in a pending
token until an operator, a parenthesis or the end flushes it as a leaf. A parenthesis behind a
known function name makes a call, whose argument list is cut at the separators first; any other
parenthesis makes a group. Each argument is then read by itself, like a whole formula.

## Main definitions

* `joinsToken` — operators that belong to the pending token
* `ReadEvents` — what reading meets on its way
* `readSequence`, `readOpened`, `readArguments` — parts in a row, behind an opening parenthesis,
  and between separators
* `readWhole`, `readBody` — all parts of a text that nothing encloses, and a formula body

## Design notes

Reading meets faults of the text, and could meet a function name without an argument list. What
happens then is left to the caller as actions of any monad: the lenient caller records the fault
and reads on, the strict one answers with it.
-/

namespace SheetFormula

/-- The pending token as a leaf, without the blanks around it; no leaf if nothing is left. -/
def tokenLeaf (pending : Text) : List Expression :=
  if (Text.trim pending).isEmpty then [] else [.leaf (Text.trim pending)]

/-- Whether an operator character belongs to the pending token: the colon of a range such as
`A1:B10`, the sign of an exponent such as `1E+5`, or a sign in front of a number where no operand
precedes it. -/
def joinsToken (op : Operator) (afterOperand : Bool) (pending : Text) (next : Option Char) :
    Bool :=
  match op with
  | .range =>
    !(Text.trim pending).isEmpty && !pending.getLast?.any Text.isBlank &&
      next.any Text.isReferencePart
  | .plus | .minus =>
    Text.awaitsExponent pending ||
      ((Text.trim pending).isEmpty && !afterOperand && next.any fun c => c.isDigit || c == '.')
  | _ => false

/-- The operator that stands by itself at the start of the marks. -/
def standaloneOperator? (afterOperand : Bool) (pending : Text) (ms : List Mark) :
    Option Operator :=
  (Operator.atStart? (Mark.sourceText (ms.take 2))).filter fun op =>
    !joinsToken op afterOperand pending ((ms.drop op.width).head?.bind Mark.char?)

/-- One argument: a single part stands for itself, several are wrapped with their text, and none
leaves the text as a leaf. -/
def argumentOf (text : Text) : List Expression → Expression
  | [] => .leaf text
  | [part] => part
  | parts => .plain text parts

/-- What reading meets on its way. -/
structure ReadEvents (m : Type → Type) where
  /-- The text is at fault, and can be read on. -/
  faulty (fault : Fault) : m Unit
  /-- A function name is taken for a call and no argument list begins behind it. -/
  unopened (name : Text) (position : Nat) : m Unit

section Reading

variable {m : Type → Type} [Monad m] (events : ReadEvents m) (separator : Separator)

/-- Reports a literal at a position unless it is closed. -/
def reportLiteral (closed : Bool) (position : Nat) : m Unit :=
  if closed then pure () else events.faulty (.unterminatedString position)

/-- Reports an unclosed literal among the marks. -/
def reportUnclosedLiteral (ms : List Mark) : m Unit :=
  match ms.find? Mark.isUnclosed with
  | some mark => events.faulty (.unterminatedString mark.position)
  | none => pure ()

/-- Reports a parenthesis that no mark closes, given what follows the marks inside it. -/
def reportUnclosedParenthesis (opening : Mark) (tail : List Mark) : m Unit :=
  if tail.isEmpty then events.faulty (.unclosedParenthesis opening.position) else pure ()

/-- Reports a call whose arguments do not begin with a parenthesis. -/
def reportUnopened (name : Text) (opening : Mark) : m Unit :=
  if opening.char? = some '(' then pure () else events.unopened name opening.position

/-- The parts that were read, with the text from a `)` without a partner on as a last leaf. -/
def finishParts (parts : List Expression) : List Mark → m (List Expression)
  | [] => pure parts
  | stray :: tail => do
    events.faulty (.unmatchedCloseParenthesis stray.position)
    pure (parts ++ [.leaf (Mark.sourceText (Mark.trimmed (stray :: tail)))])

mutual

/-- Reads parts in a row. `pending` is the token that the marks continue, and `afterOperand` tells
whether the part before the token is an operand. No `)` closes a parenthesis in front of the
marks. -/
def readSequence (afterOperand : Bool) (pending : Text) : List Mark → m (List Expression)
  | [] => pure (tokenLeaf pending)
  | mark :: rest =>
    match mark.piece with
    | .literal text closed => do
      reportLiteral events closed mark.position
      readSequence afterOperand (pending ++ text) rest
    | .char c =>
      if c = '(' then
        readOpened pending mark (Mark.cutAtClose 0 rest).1 (Mark.cutAtClose 0 rest).2
      else if mark.isLayout && Text.isConnector c then
        readSequence afterOperand (pending ++ [' ']) rest
      else
        match standaloneOperator? afterOperand pending (mark :: rest) with
        | some op => do
          let more ← readSequence false [] (rest.drop (op.width - 1))
          pure (tokenLeaf pending ++ .operator op :: more)
        | none => readSequence afterOperand (pending ++ [c]) rest
termination_by marks => 4 * marks.length + 2
decreasing_by
  · rw [List.length_cons]; omega
  · have := Mark.length_cutAtClose 0 rest
    rw [List.length_cons]; omega
  · rw [List.length_cons]; omega
  · rw [List.length_cons, List.length_drop]; omega
  · rw [List.length_cons]; omega

/-- Reads on behind an opening parenthesis: the marks inside it, and the tail from the `)` on,
which is empty if nothing closes it. -/
def readOpened (pending : Text) (opening : Mark) (inside tail : List Mark) :
    m (List Expression) :=
  match FunctionName.canonical? (Text.cutBeforeName pending).2 with
  | some name => do
    reportUnopened events name opening
    reportUnclosedLiteral events inside
    reportUnclosedParenthesis events opening tail
    let arguments ← readArguments (Mark.argumentParts separator inside)
    let more ← readSequence true [] tail.tail
    pure (tokenLeaf (Text.cutBeforeName pending).1 ++
      .call name
        ((Text.cutBeforeName pending).2 ++
          Mark.sourceText (opening :: inside ++ tail.take 1)) arguments :: more)
  | none => do
    let parts ← readSequence false [] inside
    reportUnclosedParenthesis events opening tail
    let more ← readSequence true [] tail.tail
    pure (tokenLeaf pending ++
      .group (Mark.sourceText (opening :: inside ++ tail.take 1)) parts :: more)
termination_by 4 * (inside.length + tail.length + 1) + 1
decreasing_by
  · have := Mark.totalLength_argumentParts_le separator inside
    omega
  · rw [List.length_tail]; omega
  · omega
  · rw [List.length_tail]; omega

/-- Reads the parts of an argument list, each without the layout around it. -/
def readArguments : List (List Mark) → m (List Expression)
  | [] => pure []
  | part :: parts => do
    let children ← readWhole (Mark.trimmed part)
    let more ← readArguments parts
    pure (argumentOf (Mark.sourceText (Mark.trimmed part)) children :: more)
termination_by parts => 4 * Mark.totalLength parts
decreasing_by
  · have := Mark.length_trimmed_le part
    rw [Mark.totalLength]; omega
  · rw [Mark.totalLength]; omega

/-- Reads all parts of marks that stand in no parentheses. -/
def readWhole (marks : List Mark) : m (List Expression) := do
  let parts ← readSequence false [] (Mark.cutAtClose 0 marks).1
  finishParts events parts (Mark.cutAtClose 0 marks).2
termination_by 4 * marks.length + 3
decreasing_by
  · have := Mark.length_cutAtClose 0 marks
    omega

end

/-- Reads a formula body. -/
def readBody (body : Text) : m Expression := do
  let parts ← readWhole events separator (marks body)
  pure (.plain body parts)

end Reading

end SheetFormula
