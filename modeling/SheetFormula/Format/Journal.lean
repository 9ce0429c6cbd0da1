import SheetFormula.Text.Basic

/-!
# Journals

Reading and formatting tell what they do in lines of a journal. A line belongs to a category and
has a level; the journal keeps the lines up to its own level. Lines of formatting are numbered in
one sequence, and a number is taken only for a line that is kept.

## Main definitions

* `Level`, `Line`, `Journal` — levels, lines, and the lines kept so far
* `Journal.record`, `Journal.write`, `Journal.trace` — a line as it is, a numbered line, and the
  numbered line at the begin or end of an activity
* `Sink` — where lines go: a journal (`Sink.journal`) or nowhere (`Sink.silent`)
-/

namespace SheetFormula

/-- How much a line matters, from most to least. -/
inductive Level where
  | error
  | warn
  | info
  | debug
  | trace
  deriving DecidableEq

namespace Level

/-- The place of the level; a greater one matters less. -/
def rank : Level → Nat
  | error => 1
  | warn => 2
  | info => 3
  | debug => 4
  | trace => 5

/-- The letter of the level in a numbered line. -/
def code : Level → String
  | error => "E"
  | warn => "W"
  | info => "I"
  | debug => "D"
  | trace => "T"

end Level

/-- A line of a journal. -/
structure Line where
  level : Level
  category : String
  message : String
  deriving DecidableEq

/-- The lines kept so far, and what the next line needs. -/
structure Journal where
  /-- The least important level that is kept; nothing is kept without one. -/
  limit : Option Level
  /-- The number of the last numbered line. -/
  count : Nat
  lines : List Line
  deriving DecidableEq

namespace Journal

/-- An empty journal. -/
def empty (limit : Option Level) : Journal :=
  ⟨limit, 0, []⟩

/-- Whether lines of a level are kept. -/
def keeps (j : Journal) (level : Level) : Bool :=
  j.limit.any fun limit => level.rank ≤ limit.rank

/-- Keeps a line as it is, if its level allows. -/
def record (level : Level) (category message : String) (j : Journal) : Journal :=
  if j.keeps level then { j with lines := j.lines ++ [⟨level, category, message⟩] } else j

/-- Takes the next number. -/
def takeNumber (j : Journal) : Journal :=
  { j with count := j.count + 1 }

/-- A message with its number, level and category. -/
def numbered (number : Nat) (level : Level) (category message : String) : String :=
  s!"{number}|{level.code}|{category}|{message}"

/-- Keeps a line under the next number, if its level allows. -/
def write (level : Level) (category message : String) (j : Journal) : Journal :=
  if j.keeps level then
    j.takeNumber.record level category (numbered (j.count + 1) level category message)
  else j

/-- The message at the begin or end of an activity, with a detail if there is one. -/
def traceMessage (marker activity detail : String) : String :=
  if detail.isEmpty then s!"{marker} {activity}" else s!"{marker} {activity} {detail}"

/-- Keeps the line at the begin or end of an activity. -/
def trace (category marker activity detail : String) (j : Journal) : Journal :=
  j.write .debug category (traceMessage marker activity detail)

end Journal

/-- Where the lines of an activity go. -/
structure Sink (m : Type → Type) where
  /-- Hands a line over as it is. -/
  record (level : Level) (category message : String) : m Unit
  /-- Hands a line over to be numbered. -/
  write (level : Level) (category message : String) : m Unit

namespace Sink

variable {m : Type → Type}

/-- Hands over the line at the begin or end of an activity. -/
def trace (sink : Sink m) (category marker activity detail : String) : m Unit :=
  sink.write .debug category (Journal.traceMessage marker activity detail)

/-- No line is kept. -/
def silent : Sink Id where
  record _ _ _ := pure ()
  write _ _ _ := pure ()

/-- The lines go into a journal. -/
def journal : Sink (StateM Journal) where
  record level category message := modify (Journal.record level category message)
  write level category message := modify (Journal.write level category message)

end Sink

end SheetFormula
