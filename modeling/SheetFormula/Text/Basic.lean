import SheetFormula.Text.Blank

/-!
# Texts

A text is its list of characters, so that every position, length and limit of the library counts
characters. Here are the cuts at the two ends of a list that the readers share.

## Main definitions

* `Text` — a list of characters
* `dropEndWhile`, `takeEndWhile` — the longest matching run at the end, cut off or kept
* `Text.trim` — the text without the blanks around it
* `Text.slice` — the characters between two positions
* `Text.lineCount` — lines of a text, where a final line break ends the last line
-/

namespace SheetFormula

/-- A text, character by character. -/
abbrev Text := List Char

section Ends

variable {α : Type}

/-- The list without its longest final run of matching elements. -/
def dropEndWhile (p : α → Bool) (xs : List α) : List α :=
  (xs.reverse.dropWhile p).reverse

/-- The longest final run of matching elements. -/
def takeEndWhile (p : α → Bool) (xs : List α) : List α :=
  (xs.reverse.takeWhile p).reverse

/-- A list is what its final run leaves, followed by that run. -/
theorem dropEndWhile_append_takeEndWhile (p : α → Bool) (xs : List α) :
    dropEndWhile p xs ++ takeEndWhile p xs = xs := by
  rw [dropEndWhile, takeEndWhile, ← List.reverse_append, List.takeWhile_append_dropWhile,
    List.reverse_reverse]

/-- Cutting a final run off makes no list longer. -/
theorem length_dropEndWhile_le (p : α → Bool) (xs : List α) :
    (dropEndWhile p xs).length ≤ xs.length := by
  have whole := congrArg List.length (dropEndWhile_append_takeEndWhile p xs)
  rw [List.length_append] at whole
  omega

/-- Cutting an initial run off makes no list longer. -/
theorem length_dropWhile_le (p : α → Bool) (xs : List α) :
    (xs.dropWhile p).length ≤ xs.length :=
  (List.dropWhile_suffix p).length_le

/-- The list without the matching elements at both ends. -/
def trimEnds (p : α → Bool) (xs : List α) : List α :=
  dropEndWhile p (xs.dropWhile p)

end Ends

namespace Text

/-- The text without the blanks around it. -/
def trim (t : Text) : Text :=
  trimEnds isBlank t

/-- The characters from `start` up to `stop`, as far as the text has them. -/
def slice (t : Text) (start stop : Nat) : Text :=
  (t.take stop).drop start

/-- A text of `n` spaces. -/
def spaces (n : Nat) : Text :=
  List.replicate n ' '

/-- The number of lines. A line break ends a line and starts none by itself. -/
def lineCount (t : Text) : Nat :=
  t.count '\n' + if t.getLast?.all (· == '\n') then 0 else 1

/-- The texts one after the other, with `gap` between neighbours. -/
def joined (gap : Text) : List Text → Text
  | [] => []
  | [t] => t
  | t :: ts => t ++ (gap ++ joined gap ts)

end Text

end SheetFormula
