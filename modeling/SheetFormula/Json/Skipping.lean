import SheetFormula.Json.Number
import SheetFormula.Json.Quoted

/-!
# Skipping JSON values

A value that nobody asks for must be well formed, but its numbers may be of any size and its
strings may hold halves of characters.

## Main definitions

* `Json.skipFrom`, `Json.skipValue` — a value with its first character read or not
* `Json.skipElements`, `Json.skipMembers`, `Json.skipMember` — the inside of arrays and objects
-/

namespace SheetFormula.Json

/-- A word behind its first character. -/
def skipWord (word : Text) (c : Char) (t : Text) : Except Fault (Scanned Unit (c :: t)) :=
  (expectWord word t).map fun rest => ⟨(), rest.1, Nat.lt_succ_of_le rest.2⟩

/-- A number, of which a digit or the minus is the first character. A text that ends where a digit
must stand is malformed. -/
def skipNumber (c : Char) (t : Text) : Except Fault (Scanned Unit (c :: t)) :=
  if c = '-' then
    (scanNumeral .malformed t).map fun n => (n.withValue ()).behind c
  else (scanNumeral .malformed (c :: t)).map (·.withValue ())

mutual

/-- Skips a value whose first character is read already. -/
def skipFrom (c : Char) (t : Text) : Except Fault (Scanned Unit (c :: t)) :=
  if c = '[' then (skipElements true t).map (·.behind c)
  else if c = '\x7b' then (skipMembers true t).map (·.behind c)
  else if c = '"' then
    (readQuoted false t).map fun text => (text.withValue ()).behind c
  else if c = 'n' then skipWord ['u', 'l', 'l'] c t
  else if c = 't' then skipWord ['r', 'u', 'e'] c t
  else if c = 'f' then skipWord ['a', 'l', 's', 'e'] c t
  else if c = '-' || c.isDigit then skipNumber c t
  else .error .malformed
termination_by 4 * (t.length + 1)

/-- Skips a value, with blanks before it. -/
def skipValue (t : Text) : Except Fault (Scanned Unit t) :=
  match next? t with
  | none => .error .truncated
  | some found => (skipFrom found.value found.rest).map (·.widen found.shorter)
termination_by 4 * t.length + 1
decreasing_by
  have := found.shorter
  omega

/-- Skips the elements of an array up to its end: all of them, or those behind another one. -/
def skipElements (first : Bool) (t : Text) : Except Fault (Scanned Unit t) :=
  match next? t with
  | none => .error .truncated
  | some found =>
    if found.value = ']' then .ok (found.withValue ())
    else if first then
      match skipFrom found.value found.rest with
      | .error fault => .error fault
      | .ok element =>
        (skipElements false element.rest).map
          (·.widen (Nat.le_of_lt (Nat.lt_of_lt_of_le element.shorter found.shorter)))
    else if found.value = ',' then
      match skipValue found.rest with
      | .error fault => .error fault
      | .ok element =>
        (skipElements false element.rest).map
          (·.widen (Nat.le_of_lt (Nat.lt_trans element.shorter found.shorter)))
    else .error .malformed
termination_by 4 * t.length + 2
decreasing_by
  · have := found.shorter
    omega
  · have := Nat.lt_of_lt_of_le element.shorter found.shorter
    omega
  · have := found.shorter
    omega
  · have := Nat.lt_trans element.shorter found.shorter
    omega

/-- Skips a member of an object behind the quote that opens its key. -/
def skipMember (t : Text) : Except Fault (Scanned Unit t) :=
  match readQuoted false t with
  | .error fault => .error fault
  | .ok key =>
    match expectChar ':' key.rest with
    | .error fault => .error fault
    | .ok colon =>
      (skipValue colon.rest).map
        (·.widen (Nat.le_of_lt (Nat.lt_trans colon.shorter key.shorter)))
termination_by 4 * t.length + 2
decreasing_by
  have := Nat.lt_trans colon.shorter key.shorter
  omega

/-- Skips the members of an object up to its end: all of them, or those behind another one. -/
def skipMembers (first : Bool) (t : Text) : Except Fault (Scanned Unit t) :=
  match next? t with
  | none => .error .truncated
  | some found =>
    if found.value = '\x7d' then .ok (found.withValue ())
    else if first then
      if found.value = '"' then
        match skipMember found.rest with
        | .error fault => .error fault
        | .ok member =>
          (skipMembers false member.rest).map
            (·.widen (Nat.le_of_lt (Nat.lt_trans member.shorter found.shorter)))
      else .error .malformed
    else if found.value = ',' then
      match expectChar '"' found.rest with
      | .error fault => .error fault
      | .ok quote =>
        match skipMember quote.rest with
        | .error fault => .error fault
        | .ok member =>
          (skipMembers false member.rest).map
            (·.widen (Nat.le_of_lt (Nat.lt_trans member.shorter
              (Nat.lt_trans quote.shorter found.shorter))))
    else .error .malformed
termination_by 4 * t.length + 3
decreasing_by
  · have := found.shorter
    omega
  · have := Nat.lt_trans member.shorter found.shorter
    omega
  · have := Nat.lt_trans quote.shorter found.shorter
    omega
  · have := Nat.lt_trans member.shorter (Nat.lt_trans quote.shorter found.shorter)
    omega

end

end SheetFormula.Json
