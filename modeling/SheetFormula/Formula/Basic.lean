import SheetFormula.Formula.Reading

/-!
# Formulas

A formula is entered with or without an equals sign in front. Reading it gives its expression and
the faults of its text: leniently, every fault is recovered from and recorded once, in the order
in which it is met; strictly, the first fault is the answer.

## Main definitions

* `Formula`, `Formula.ofText` — an entry, split into its equals sign and its body
* `Formula.recover` — what a lenient reading answers, and the faults added to those known before
* `Formula.tree` — the expression of any formula, faults recovered from
* `Formula.faults` — the faults of the formula
* `Formula.tree?` — the expression, or the first fault
-/

namespace SheetFormula

/-- A formula as it was entered. -/
structure Formula where
  /-- Whether an equals sign stands in front. -/
  hasEquals : Bool
  /-- The formula itself, without blanks around it. -/
  body : Text
  deriving DecidableEq

namespace Formula

/-- Splits one equals sign off. -/
def ofText (t : Text) : Formula :=
  match Text.trim t with
  | '=' :: rest => ⟨true, Text.trim rest⟩
  | body => ⟨false, body⟩

/-- A body with the equals sign of the formula. -/
def withEquals (f : Formula) (body : Text) : Text :=
  if f.hasEquals then '=' :: body else body

/-- The separator of the arguments of all calls of the formula. -/
def separator (f : Formula) : Separator :=
  Separator.ofText f.body

/-- Records a fault that is not yet known. -/
def record (fault : Fault) : StateM (List Fault) Unit :=
  modify fun known => if fault ∈ known then known else known ++ [fault]

/-- Faults are recorded, and a call without an argument list ends the reading. -/
def lenientEvents : ReadEvents (ExceptT Fault (StateM (List Fault))) where
  faulty fault := ExceptT.lift (record fault)
  unopened name position := throw (.missingArgumentList name position)

/-- The first fault ends the reading. -/
def strictEvents : ReadEvents (Except Fault) where
  faulty fault := throw fault
  unopened name position := throw (.missingArgumentList name position)

/-- The answer of a lenient reading, and the known faults with those of the formula. -/
def recover (f : Formula) (known : List Fault) : Except Fault Expression × List Fault :=
  Id.run ((readBody lenientEvents f.separator f.body).run.run known)

/-- The expression of the formula, faults recovered from; the body as one leaf if it cannot be
read. -/
def tree (f : Formula) : Expression :=
  match (f.recover []).1 with
  | .ok expression => expression
  | .error _ => .leaf f.body

/-- The faults of the formula, each once, in the order in which they are met. -/
def faults (f : Formula) : List Fault :=
  (f.recover []).2

/-- The expression of a formula without faults, or its first fault. -/
def tree? (f : Formula) : Except Fault Expression :=
  readBody strictEvents f.separator f.body

end Formula

end SheetFormula
