import SheetFormula.Format.Rendering
import SheetFormula.Formula.Basic

/-!
# Beautified formulas

A formula in a style: it is read, laid out, and gets its equals sign back. `beautify` always
answers with a text; `beautifyStrict` answers with the first fault of the formula or its layout.

## Main definitions

* `beautifyWith`, `beautifyStrictWith` — with lines about each step
* `beautifyBoundedWith` — with widths that are counted in words
* `beautify`, `beautifyStrict` — the answers alone
* `passes` — a formula beautified again and again
-/

namespace SheetFormula

section Beautify

variable {m : Type → Type} [Monad m] (sink : Sink m) (style : Style)

/-- Tells a journal about the faults that reading recovered from. -/
def recordFaults (faults : List Fault) : m Unit :=
  faults.forM fun fault => sink.record .debug "PARSE" s!"Recovered from: {fault.message}"

/-- The expression of a formula, with a line for every fault. -/
def readWith (t : Text) : m Expression := do
  recordFaults sink (Formula.ofText t).faults
  pure (Formula.ofText t).tree

/-- The formula from the format of its expression; the formula unchanged if that is at fault. -/
def beautifyBy (formatting : Expression → m (Except FormatFault Text)) (t : Text) : m Text := do
  sink.trace "BEAUTIFY" "ENTER" "beautify" s!"{t.length} chars"
  let tree ← readWith sink t
  let result ← do
    match ← formatting tree with
    | .ok body => pure ((Formula.ofText t).withEquals body)
    | .error fault => do
      sink.write .error "BEAUTIFY" s!"Beautify failed, returning input: {fault.message}"
      pure t
  sink.trace "BEAUTIFY" "EXIT" "beautify" s!"{result.lineCount} lines"
  pure result

/-- The formula in a style; the formula unchanged if the style is at fault. -/
def beautifyWith (t : Text) : m Text :=
  beautifyBy sink (formattedWith style sink) t

/-- The formula in a style; the formula unchanged if the style is at fault, or an indentation
outside of calls. -/
def beautifyBoundedWith (t : Text) : m Text :=
  beautifyBy sink (formattedBoundedWith style sink) t

/-- The formula in a style, or the first fault. -/
def beautifyStrictWith (t : Text) : m (Except BeautifyFault Text) :=
  match (Formula.ofText t).tree? with
  | .error fault => pure (.error (.reading fault))
  | .ok tree => do
    match ← formatStrictWith style sink tree with
    | .error fault => pure (.error (.format fault))
    | .ok body => pure (.ok ((Formula.ofText t).withEquals body))

end Beautify

/-- The formula in a style; the formula unchanged if the style is at fault. -/
def beautify (style : Style) (t : Text) : Text :=
  Id.run (beautifyWith .silent style t)

/-- The formula in a style, or the first fault. -/
def beautifyStrict (style : Style) (t : Text) : Except BeautifyFault Text :=
  Id.run (beautifyStrictWith .silent style t)

/-- What one, two and up to `count` passes of `beautify` make of a formula. -/
def passes (style : Style) : Nat → Text → List Text
  | 0, _ => []
  | count + 1, t => beautify style t :: passes style count (beautify style t)

end SheetFormula
