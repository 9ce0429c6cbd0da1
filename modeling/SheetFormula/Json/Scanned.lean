import SheetFormula.Text.Basic

/-!
# Scanning JSON

What the readers of JSON share: why a text is no JSON, what a scanner returns, and the scanners
for blanks, words and single characters. Every scanner leaves less text than it found, which is
why reading nested values ends.

## Main definitions

* `Json.Fault` — the three ways in which a text can be wrong
* `Json.Scanned` — a value and the shorter text behind it
* `Json.next?` — the first character that is no blank
* `Json.expectWord`, `Json.expectChar` — what must stand at the start of a text
-/

namespace SheetFormula.Json

/-- What is wrong with a text, as the first offence from the left shows it. -/
inductive Fault where
  /-- The text is no JSON. -/
  | malformed
  /-- A value has another type than its place asks for, or a field comes twice. -/
  | mistyped
  /-- The text ends too early. -/
  | truncated
  deriving DecidableEq

/-- A value read from the start of a text, and what stands behind it. -/
structure Scanned (α : Type) (t : Text) where
  value : α
  rest : Text
  shorter : rest.length < t.length

/-- The same value and rest, seen from a longer text. -/
def Scanned.widen {α : Type} {s t : Text} (found : Scanned α s) (le : s.length ≤ t.length) :
    Scanned α t :=
  ⟨found.value, found.rest, Nat.lt_of_lt_of_le found.shorter le⟩

/-- A value that one character stands for. -/
def Scanned.single {α : Type} (value : α) (c : Char) (t : Text) : Scanned α (c :: t) :=
  ⟨value, t, Nat.lt_succ_self _⟩

/-- The same value and rest, with a character in front of the text. -/
def Scanned.behind {α : Type} {t : Text} (c : Char) (found : Scanned α t) :
    Scanned α (c :: t) :=
  found.widen (Nat.le_succ _)

/-- Another value with the same rest. -/
def Scanned.withValue {α β : Type} {t : Text} (found : Scanned α t) (value : β) :
    Scanned β t :=
  ⟨value, found.rest, found.shorter⟩

/-- The four blanks of JSON. -/
def isBlank (c : Char) : Bool :=
  c == ' ' || c == '\t' || c == '\n' || c == '\r'

/-- The first character that is no blank, and the text behind it. -/
def next? : (t : Text) → Option (Scanned Char t)
  | [] => none
  | c :: t =>
    if isBlank c then (next? t).map (·.behind c)
    else some (.single c c t)

/-- A scanner that takes nothing leaves no longer text. -/
theorem length_le_self (t : Text) : t.length ≤ t.length :=
  Nat.le_refl _

/-- Reads the characters of a word. -/
def expectWord : (word t : Text) → Except Fault { rest : Text // rest.length ≤ t.length }
  | [], t => .ok ⟨t, length_le_self t⟩
  | _ :: _, [] => .error .truncated
  | w :: word, c :: t =>
    if c = w then (expectWord word t).map fun rest => ⟨rest.1, Nat.le_succ_of_le rest.2⟩
    else .error .malformed

/-- Reads one character behind blanks. -/
def expectChar (c : Char) (t : Text) : Except Fault (Scanned Unit t) :=
  match next? t with
  | none => .error .truncated
  | some found => if found.value = c then .ok (found.withValue ()) else .error .malformed

end SheetFormula.Json
