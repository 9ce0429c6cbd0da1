import SheetFormula.Formula.Basic

/-!
# Reading sessions

A session reads one formula any number of times, leniently or strictly. Lenient readings add the
faults they recover from to those recorded; a strict reading only answers.

## Main definitions

* `Mode` — what a fault does to a reading
* `Session` — the formula, the mode and the faults recorded so far
* `Session.read` — one reading
-/

namespace SheetFormula

/-- What a fault does to a reading. -/
inductive Mode where
  /-- The fault is recorded and the reading goes on. -/
  | lenient
  /-- The fault is the answer. -/
  | strict
  deriving DecidableEq

/-- A formula under repeated reading. -/
structure Session where
  formula : Formula
  mode : Mode
  /-- The faults recorded by lenient readings, each once. -/
  faults : List Fault
  deriving DecidableEq

namespace Session

/-- A lenient session without recorded faults. -/
def start (t : Text) : Session :=
  ⟨Formula.ofText t, .lenient, []⟩

/-- The session in another mode; nothing else changes. -/
def withMode (s : Session) (mode : Mode) : Session :=
  { s with mode }

/-- Reads the formula in the mode of the session. -/
def read (s : Session) : Except Fault Expression × Session :=
  match s.mode with
  | .lenient =>
    let reading := s.formula.recover s.faults
    (reading.1, { s with faults := reading.2 })
  | .strict => (s.formula.tree?, s)

end Session

end SheetFormula
