import SheetFormula.Json.Scanned

/-!
# JSON strings

A string stands between double quotes, without control characters. A backslash escapes one
character or begins a UTF-16 unit of four hexadecimal digits. A unit of the surrogate range is
half a character: it counts as one only together with its other half, and where the text of the
string is not needed, halves are not looked at.

## Main definitions

* `Json.hexUnit` — four hexadecimal digits
* `Json.escaped` — what a backslash stands for
* `Json.readQuoted` — a string behind its opening quote
-/

namespace SheetFormula.Json

/-- The value of a hexadecimal digit. -/
def hexDigit? (c : Char) : Option Nat :=
  if c.isDigit then some (c.toNat - '0'.toNat)
  else if 'a' ≤ c ∧ c ≤ 'f' then some (c.toNat - 'a'.toNat + 10)
  else if 'A' ≤ c ∧ c ≤ 'F' then some (c.toNat - 'A'.toNat + 10)
  else none

/-- The number of UTF-8 bytes of a text. -/
def byteCount (t : Text) : Nat :=
  t.foldr (fun c count => c.utf8Size + count) 0

/-- Reads four hexadecimal digits. The text ends too early if it has less than four bytes left,
even if none of them is a digit. -/
def hexUnit (t : Text) : Except Fault (Scanned Nat t) :=
  if byteCount t < 4 then .error .truncated
  else
    match t with
    | a :: b :: c :: d :: rest =>
      match hexDigit? a, hexDigit? b, hexDigit? c, hexDigit? d with
      | some a, some b, some c, some d =>
        .ok ⟨((a * 16 + b) * 16 + c) * 16 + d, rest,
          by simp only [List.length_cons]; omega⟩
      | _, _, _, _ => .error .malformed
    | _ => .error .malformed

/-- The first half of a character beyond the first 65536. -/
def isLeadingHalf (unit : Nat) : Bool :=
  0xd800 ≤ unit && unit < 0xdc00

/-- The second half of such a character. -/
def isTrailingHalf (unit : Nat) : Bool :=
  0xdc00 ≤ unit && unit < 0xe000

/-- The character of two halves. -/
def joinHalves (leading trailing : Nat) : Char :=
  Char.ofNat (0x10000 + (leading - 0xd800) * 0x400 + (trailing - 0xdc00))

/-- Reads the second half of a character, which must be escaped as well. -/
def trailingHalf (t : Text) : Except Fault (Scanned Nat t) :=
  match t with
  | [] => .error .truncated
  | ['\\'] => .error .truncated
  | '\\' :: 'u' :: t =>
    match hexUnit t with
    | .error fault => .error fault
    | .ok unit =>
      if isTrailingHalf unit.value then
        .ok ((unit.behind 'u').behind '\\')
      else .error .malformed
  | _ => .error .malformed

/-- Reads an escaped unit, and with `paired` the other half of its character. -/
def escapedUnit (paired : Bool) (t : Text) : Except Fault (Scanned Text t) :=
  match hexUnit t with
  | .error fault => .error fault
  | .ok unit =>
    if paired && isTrailingHalf unit.value then .error .malformed
    else if paired && isLeadingHalf unit.value then
      match trailingHalf unit.rest with
      | .error fault => .error fault
      | .ok trailing =>
        .ok ((trailing.widen (Nat.le_of_lt unit.shorter)).withValue
          [joinHalves unit.value trailing.value])
    else .ok (unit.withValue [Char.ofNat unit.value])

/-- The character that a letter stands for behind a backslash. -/
def shortEscape? (c : Char) : Option Char :=
  match c with
  | '"' => some '"'
  | '\\' => some '\\'
  | '/' => some '/'
  | 'b' => some '\x08'
  | 'f' => some '\x0c'
  | 'n' => some '\n'
  | 'r' => some '\r'
  | 't' => some '\t'
  | _ => none

/-- Reads what stands behind a backslash. -/
def escaped (paired : Bool) (t : Text) : Except Fault (Scanned Text t) :=
  match t with
  | [] => .error .truncated
  | c :: t =>
    match shortEscape? c with
    | some character => .ok (.single [character] c t)
    | none =>
      if c = 'u' then (escapedUnit paired t).map (·.behind c) else .error .malformed

/-- Reads a string behind its opening quote. With `paired`, halves of characters must come in
pairs. -/
def readQuoted (paired : Bool) (t : Text) : Except Fault (Scanned Text t) :=
  match t with
  | [] => .error .truncated
  | c :: t =>
    if c = '"' then .ok (.single [] c t)
    else if c = '\\' then
      match escaped paired t with
      | .error fault => .error fault
      | .ok head =>
        match readQuoted paired head.rest with
        | .error fault => .error fault
        | .ok tail =>
          .ok ⟨head.value ++ tail.value, tail.rest,
            Nat.lt_succ_of_lt (Nat.lt_trans tail.shorter head.shorter)⟩
    else if c < ' ' then .error .malformed
    else
      match readQuoted paired t with
      | .error fault => .error fault
      | .ok tail => .ok ⟨c :: tail.value, tail.rest, Nat.lt_succ_of_lt tail.shorter⟩
termination_by t.length
decreasing_by
  · have := head.shorter
    simp; omega
  · simp

end SheetFormula.Json
