import SheetFormula.Text.Basic

/-!
# Operators

The operators that stand between the operands of a formula. Where several could start at one
place the longest does: `all` lists those of two characters first, and the first match counts.

## Main definitions

* `Operator`, `Operator.lexeme` — the operators and how they are written
* `Operator.atStart?`, `Operator.at?` — the operator at the start of a text or at a position
* `Operator.ofLexeme?` — the operator written exactly so
* `Operator.takesSpaces` — operators that stand between spaces in laid-out text
-/

namespace SheetFormula

/-- An operator of the formula language. -/
inductive Operator where
  | lessOrEqual
  | greaterOrEqual
  | notEqual
  | bangEqual
  | doubleEqual
  | plus
  | minus
  | times
  | divide
  | power
  | concatenate
  | equal
  | less
  | greater
  | range
  deriving DecidableEq

namespace Operator

/-- How the operator is written. -/
def lexeme : Operator → Text
  | lessOrEqual => ['<', '=']
  | greaterOrEqual => ['>', '=']
  | notEqual => ['<', '>']
  | bangEqual => ['!', '=']
  | doubleEqual => ['=', '=']
  | plus => ['+']
  | minus => ['-']
  | times => ['*']
  | divide => ['/']
  | power => ['^']
  | concatenate => ['&']
  | equal => ['=']
  | less => ['<']
  | greater => ['>']
  | range => [':']

/-- The number of characters of the operator. -/
def width (op : Operator) : Nat :=
  op.lexeme.length

/-- Every operator, in the order in which they are tried: the longer ones first. -/
def all : List Operator :=
  [lessOrEqual, greaterOrEqual, notEqual, bangEqual, doubleEqual, plus, minus, times, divide,
    power, concatenate, equal, less, greater, range]

/-- The longest operator that the text starts with. -/
def atStart? (t : Text) : Option Operator :=
  all.find? fun op => op.lexeme.isPrefixOf t

/-- The longest operator at a position of the text. -/
def at? (t : Text) (position : Nat) : Option Operator :=
  atStart? (t.drop position)

/-- The longest operator at a position that ends at `limit` or before it. -/
def atUpTo? (t : Text) (position limit : Nat) : Option Operator :=
  at? (t.take limit) position

/-- The operator that is written exactly so. -/
def ofLexeme? (t : Text) : Option Operator :=
  all.find? fun op => op.lexeme == t

/-- Operators that are set between spaces when they stand between operands. -/
def takesSpaces : Operator → Bool
  | plus | minus | times | divide | equal | less | greater | lessOrEqual | greaterOrEqual
  | notEqual | concatenate => true
  | bangEqual | doubleEqual | power | range => false

end Operator

/-- Whether the text is a spaced operator and nothing else. -/
def Text.isSpacedOperator (t : Text) : Bool :=
  (Operator.ofLexeme? t).any Operator.takesSpaces

end SheetFormula
