import SheetFormula.Formula.Mark
import SheetFormula.Formula.Separator

/-!
# Parentheses and arguments

How marks are cut at the parenthesis that closes them and at the separators of an argument list.
Literals are single marks, so a parenthesis or separator inside one is never met.

## Main definitions

* `Mark.depthAfter` — the number of open parentheses behind a mark
* `Mark.cutAtClose` — marks cut before the `)` that none of them opens
* `Mark.cutAtSeparators`, `Mark.argumentParts` — the parts of an argument list

The cuts lose nothing (`cutAtClose_whole`), and the parts of an argument list are no longer than
the list with its separators (`totalLength_argumentParts_le`).
-/

namespace SheetFormula.Mark

/-- The number of open parentheses behind a mark, from that before it. -/
def depthAfter (depth : Nat) (m : Mark) : Nat :=
  if m.char? = some '(' then depth + 1
  else if m.char? = some ')' then depth - 1
  else depth

/-- The marks before the first `)` that closes none of the `depth` open parentheses and none that
the marks open, and the marks from there on. -/
def cutAtClose (depth : Nat) : List Mark → List Mark × List Mark
  | [] => ([], [])
  | m :: ms =>
    if depth = 0 ∧ m.char? = some ')' then ([], m :: ms)
    else (cutAtClose (m.depthAfter depth) ms).map (m :: ·) id

/-- Cutting at a parenthesis loses nothing. -/
theorem cutAtClose_whole (depth : Nat) (ms : List Mark) :
    (cutAtClose depth ms).1 ++ (cutAtClose depth ms).2 = ms := by
  induction ms generalizing depth with
  | nil => rfl
  | cons m ms ih =>
    rw [cutAtClose]
    split
    · rfl
    · simp [ih]

/-- The two sides of a cut have the length of the whole. -/
theorem length_cutAtClose (depth : Nat) (ms : List Mark) :
    (cutAtClose depth ms).1.length + (cutAtClose depth ms).2.length = ms.length := by
  rw [← List.length_append, cutAtClose_whole]

/-- The marks up to the first separator outside nested parentheses, and the parts between the
separators from there on. -/
def cutAtSeparators (separator : Separator) (depth : Nat) :
    List Mark → List Mark × List (List Mark)
  | [] => ([], [])
  | m :: ms =>
    if depth = 0 ∧ m.char? = some separator.char then
      match cutAtSeparators separator 0 ms with
      | (part, parts) => ([], part :: parts)
    else (cutAtSeparators separator (m.depthAfter depth) ms).map (m :: ·) id

/-- The parts of an argument list. Layout alone is no argument; between separators it is one. -/
def argumentParts (separator : Separator) (ms : List Mark) : List (List Mark) :=
  match cutAtSeparators separator 0 ms with
  | (part, []) => if part.all isLayout then [] else [part]
  | (part, parts) => part :: parts

/-- The length of several parts with one place for what ends each. -/
def totalLength : List (List Mark) → Nat
  | [] => 0
  | part :: parts => part.length + 1 + totalLength parts

/-- Parts and separators together make up the marks. -/
theorem length_cutAtSeparators (separator : Separator) (depth : Nat) (ms : List Mark) :
    (cutAtSeparators separator depth ms).1.length +
      totalLength (cutAtSeparators separator depth ms).2 = ms.length := by
  induction ms generalizing depth with
  | nil => rfl
  | cons m ms ih =>
    rw [cutAtSeparators]
    split
    · have := ih 0
      simp only [totalLength, List.length_nil, List.length_cons]
      omega
    · have := ih (m.depthAfter depth)
      simp only [Prod.map_fst, Prod.map_snd, List.length_cons, id]
      omega

/-- The parts of an argument list are no longer than the list. -/
theorem totalLength_argumentParts_le (separator : Separator) (ms : List Mark) :
    totalLength (argumentParts separator ms) ≤ ms.length + 1 := by
  have whole := length_cutAtSeparators separator 0 ms
  unfold argumentParts
  split
  · next part cut =>
    rw [cut] at whole
    split
    · exact Nat.zero_le _
    · simp only [totalLength] at whole ⊢
      omega
  · next part parts _ cut =>
    rw [cut] at whole
    simp only [totalLength] at whole ⊢
    omega

end SheetFormula.Mark
