import SheetFormula.Formula.Operator

/-!
# Expressions

The structure of a formula that layout needs: calls of known functions, groups in parentheses,
and operators between operands. Everything else stays a leaf with its text. Every node but an
operator carries the text that it was read from.

## Main definitions

* `Expression` — the tree
* `Expression.source`, `Expression.children` — the text and the parts of a node
* `Expression.isLeaf`, `Expression.isCall`, `Expression.isCompound`, `Expression.containsCall` —
  the kinds of nodes that layout tells apart
* `Expression.edgeLexeme` — what a node shows to its neighbours
* `Expression.display` — the tree on one line, without layout
* `Expression.nodes` — all nodes, each before its parts
-/

namespace SheetFormula

/-- A formula, or a part of one. -/
inductive Expression where
  /-- A leaf, or several parts in a row as one argument or as the whole formula. -/
  | plain (source : Text) (children : List Expression)
  /-- Parts in parentheses that follow no known function name. -/
  | group (source : Text) (children : List Expression)
  /-- A call of a known function. -/
  | call (name source : Text) (arguments : List Expression)
  /-- An operator between its neighbours. -/
  | operator (op : Operator)

namespace Expression

/-- A node without parts, shown by its text alone. -/
def leaf (text : Text) : Expression :=
  plain text []

/-- The text that the node was read from. -/
def source : Expression → Text
  | plain text _ | group text _ | call _ text _ => text
  | operator op => op.lexeme

/-- The parts of the node in the order of the text; for a call, its arguments. -/
def children : Expression → List Expression
  | plain _ parts | group _ parts | call _ _ parts => parts
  | operator _ => []

/-- A plain node without parts. -/
def isLeaf : Expression → Bool
  | plain _ parts => parts.isEmpty
  | _ => false

/-- A call of a known function. -/
def isCall : Expression → Bool
  | call .. => true
  | _ => false

/-- A standalone operator. -/
def isOperator : Expression → Bool
  | operator _ => true
  | _ => false

/-- A group, or a plain node with parts. -/
def isCompound : Expression → Bool
  | group .. => true
  | plain _ parts => !parts.isEmpty
  | _ => false

mutual

/-- Whether the node is a call or holds one at any depth. -/
def containsCall : Expression → Bool
  | call .. => true
  | plain _ parts | group _ parts => anyContainsCall parts
  | operator _ => false

/-- Whether one of the nodes is a call or holds one. -/
def anyContainsCall : List Expression → Bool
  | [] => false
  | e :: es => containsCall e || anyContainsCall es

end

/-- The text that decides whether a space separates the node from its neighbour; only operators
and leaves have one. -/
def edgeLexeme : Expression → Option Text
  | operator op => some op.lexeme
  | plain text [] => some (Text.trim text)
  | _ => none

mutual

/-- The node on one line. Arguments stand between commas, whatever separator the source used. -/
def display : Expression → Text
  | plain text parts => if parts.isEmpty then text else (displayEach parts).flatten
  | group _ parts => ['('] ++ (displayEach parts).flatten ++ [')']
  | call name _ parts => name ++ ['('] ++ Text.joined [','] (displayEach parts) ++ [')']
  | operator op => op.lexeme

/-- Each of the nodes on one line. -/
def displayEach : List Expression → List Text
  | [] => []
  | e :: es => display e :: displayEach es

end

mutual

/-- The node and all nodes below it, each before its parts. -/
def nodes : Expression → List Expression
  | plain text parts => plain text parts :: nodesOfEach parts
  | group text parts => group text parts :: nodesOfEach parts
  | call name text parts => call name text parts :: nodesOfEach parts
  | operator op => [operator op]

/-- All nodes of several trees, one tree after the other. -/
def nodesOfEach : List Expression → List Expression
  | [] => []
  | e :: es => nodes e ++ nodesOfEach es

end

end Expression

end SheetFormula
