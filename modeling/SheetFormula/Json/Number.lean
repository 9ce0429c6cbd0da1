import SheetFormula.Json.Scanned

/-!
# JSON numbers

A number has an integer part without leading zeros, perhaps a fraction and perhaps an exponent. A
natural number is one without fraction and exponent below 2^64. Any other number is a double, and
is no number at all if it is too large for one.

## Main definitions

* `Json.Numeral`, `Json.scanNumeral` — the parts of a number as written
* `Json.Numeral.natural?` — the value of a natural number
* `Json.Numeral.isTooLarge` — whether the double nearest to the number is infinite
-/

namespace SheetFormula.Json

/-! ## Writing -/

/-- A number as written, without its sign. -/
structure Numeral where
  /-- The digits of the integer part. -/
  integer : Text
  /-- The digits behind the point, if there is one. -/
  fraction : Option Text
  /-- Whether the exponent is negative, and its digits. -/
  exponent : Option (Bool × Text)
  deriving DecidableEq

/-- Reads a run of digits, at least one. `atEnd` is the fault of a text that ends instead. -/
def someDigits (atEnd : Fault) (t : Text) : Except Fault (Scanned Text t) :=
  match t with
  | [] => .error atEnd
  | c :: t =>
    if c.isDigit then
      .ok ⟨c :: t.takeWhile Char.isDigit, t.dropWhile Char.isDigit,
        Nat.lt_succ_of_le (length_dropWhile_le _ _)⟩
    else .error .malformed

/-- Reads an integer part: a zero alone, or digits that begin with another. -/
def integerDigits (atEnd : Fault) (t : Text) : Except Fault (Scanned Text t) :=
  match someDigits atEnd t with
  | .error fault => .error fault
  | .ok digits =>
    if digits.value.head? = some '0' ∧ 1 < digits.value.length then .error .malformed
    else .ok digits

/-- A value that may be missing, and a text that is no longer than before. -/
structure Optional (α : Type) (t : Text) where
  value : Option α
  rest : Text
  le : rest.length ≤ t.length

/-- No value, and the whole text as rest. -/
def Optional.absent {α : Type} (t : Text) : Optional α t :=
  ⟨none, t, length_le_self t⟩

/-- A value behind the character that announces it. -/
def Optional.present {α : Type} {t : Text} (c : Char) (found : Scanned α t) :
    Optional α (c :: t) :=
  ⟨some found.value, found.rest, Nat.le_succ_of_le (Nat.le_of_lt found.shorter)⟩

/-- Reads the fraction, if a point announces one. -/
def optionalFraction (atEnd : Fault) (t : Text) : Except Fault (Optional Text t) :=
  match t with
  | '.' :: t => (someDigits atEnd t).map (Optional.present '.')
  | t => .ok (.absent t)

/-- The sign of an exponent, and the text behind it. -/
def exponentSign (t : Text) : Bool × Text :=
  match t with
  | '-' :: t => (true, t)
  | '+' :: t => (false, t)
  | t => (false, t)

/-- A sign takes nothing but itself. -/
theorem length_exponentSign_le (t : Text) : (exponentSign t).2.length ≤ t.length := by
  unfold exponentSign
  split <;> simp

/-- Reads the exponent, if its letter announces one. -/
def optionalExponent (atEnd : Fault) (t : Text) : Except Fault (Optional (Bool × Text) t) :=
  match t with
  | [] => .ok (.absent [])
  | c :: t =>
    if c = 'e' ∨ c = 'E' then
      (someDigits atEnd (exponentSign t).2).map fun digits =>
        .present c ((digits.withValue ((exponentSign t).1, digits.value)).widen
          (length_exponentSign_le t))
    else .ok (.absent (c :: t))

/-- Reads a number without its sign. `atEnd` is the fault of a text that ends where a digit must
stand. -/
def scanNumeral (atEnd : Fault) (t : Text) : Except Fault (Scanned Numeral t) :=
  match integerDigits atEnd t with
  | .error fault => .error fault
  | .ok integer =>
    match optionalFraction atEnd integer.rest with
    | .error fault => .error fault
    | .ok fraction =>
      match optionalExponent atEnd fraction.rest with
      | .error fault => .error fault
      | .ok exponent =>
        .ok ⟨⟨integer.value, fraction.value, exponent.value⟩, exponent.rest,
          Nat.lt_of_le_of_lt (Nat.le_trans exponent.le fraction.le) integer.shorter⟩

/-! ## Values -/

/-- The greatest value of a natural number, one less than 2^64. -/
def maxNatural : Nat := 18446744073709551615

/-- The value of a digit. -/
def digitValue (c : Char) : Nat :=
  c.toNat - '0'.toNat

/-- The number that digits write. -/
def naturalOf (digits : Text) : Nat :=
  digits.foldl (fun value c => value * 10 + digitValue c) 0

/-- The value of a number without fraction and exponent, if it is not too great. -/
def Numeral.natural? (n : Numeral) : Option Nat :=
  if n.fraction = none ∧ n.exponent = none ∧ naturalOf n.integer ≤ maxNatural then
    some (naturalOf n.integer)
  else none

/-- A significand with a power of ten. -/
structure Scaled where
  significand : Nat
  power : Int
  deriving DecidableEq

/-- Appends the digits of an integer part. From the first digit on that would push the significand
over `maxNatural`, digits only raise the power. -/
def Scaled.appendInteger (n : Scaled) : Text → Scaled
  | [] => n
  | c :: digits =>
    if maxNatural < n.significand * 10 + digitValue c then
      ⟨n.significand, n.power + (c :: digits).length⟩
    else appendInteger ⟨n.significand * 10 + digitValue c, n.power⟩ digits

/-- Appends the digits of a fraction. From the first digit on that would push the significand over
`maxNatural`, digits are dropped. -/
def Scaled.appendFraction (n : Scaled) : Text → Scaled
  | [] => n
  | c :: digits =>
    if maxNatural < n.significand * 10 + digitValue c then n
    else appendFraction ⟨n.significand * 10 + digitValue c, n.power - 1⟩ digits

/-- The significand and power of a number. -/
def Numeral.scaled (n : Numeral) : Scaled :=
  let whole := Scaled.appendInteger ⟨0, 0⟩ n.integer
  let mantissa := whole.appendFraction (n.fraction.getD [])
  match n.exponent with
  | none => mantissa
  | some (false, digits) => { mantissa with power := mantissa.power + naturalOf digits }
  | some (true, digits) => { mantissa with power := mantissa.power - naturalOf digits }

/-- The nearest number with 53 significant bits; of two, the one whose last bit is zero. -/
def nearestDouble (n : Nat) : Nat :=
  let unit := Nat.pow 2 (n.log2 + 1 - 53)
  let down := n / unit
  let excess := n % unit
  if unit < 2 * excess ∨ (unit = 2 * excess ∧ down % 2 = 1) then (down + 1) * unit
  else down * unit

/-- The least number whose nearest double is infinite: half a unit above the greatest double. -/
def doubleLimit : Nat :=
  Nat.pow 2 1024 - Nat.pow 2 970

/-- Whether the double nearest to the number is infinite, when the significand and the power of
ten are each rounded to a double and then multiplied. -/
def Numeral.isTooLarge (n : Numeral) : Bool :=
  let scaled := n.scaled
  match scaled.power with
  | .ofNat power =>
    scaled.significand != 0 &&
      (308 < power ||
        doubleLimit ≤ nearestDouble scaled.significand * nearestDouble (Nat.pow 10 power))
  | .negSucc _ => false

end SheetFormula.Json
