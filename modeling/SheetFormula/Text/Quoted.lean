import SheetFormula.Text.Basic
import SheetFormula.Text.Printable

/-!
# Quoted texts

A message quotes a text between double quotes, on one line and with every character visible:
line breaks, quotes and backslashes are escaped by a letter or themselves, other characters that
cannot be shown by their code point in hexadecimal digits.

## Main definitions

* `Text.escape` — a character as it stands between the quotes
* `Text.quoted` — a text between quotes
-/

namespace SheetFormula.Text

/-- A character as it stands between the quotes. -/
def escape (c : Char) : Text :=
  match c with
  | '\x00' => ['\\', '0']
  | '\t' => ['\\', 't']
  | '\r' => ['\\', 'r']
  | '\n' => ['\\', 'n']
  | '\\' => ['\\', '\\']
  | '"' => ['\\', '"']
  | c =>
    if isPrintable c then [c]
    else ['\\', 'u', '\x7b'] ++ Nat.toDigits 16 c.toNat ++ ['\x7d']

/-- The text between double quotes. -/
def quoted (t : Text) : Text :=
  ['"'] ++ t.flatMap escape ++ ['"']

end SheetFormula.Text
