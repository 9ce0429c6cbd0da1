import SheetFormula.Text.Basic

/-!
# String literals

A string literal stands between double quotes; a quote inside it is written twice. A literal
without a closing quote runs to the end of the text. Everything else of a formula is read
character by character, so a text is a list of pieces: characters and whole literals.

## Main definitions

* `Text.literalTail` — what follows an opening quote, cut behind the closing one
* `Text.literalEndAt` — where the literal with its opening quote at a position stops
* `Piece`, `pieces` — a text cut into characters and literals
* `Text.LiteralsClosed` — texts without an unclosed literal

The cut loses nothing (`literalTail_whole`, `textOf_pieces`).
-/

namespace SheetFormula

/-- The text after an opening quote, cut where the literal stops. -/
structure LiteralTail where
  /-- The rest of the literal, with its closing quote if it has one. -/
  text : Text
  /-- Whether a closing quote ends the literal. -/
  closed : Bool
  /-- What stands after the literal. -/
  rest : Text
  deriving DecidableEq

/-- The same cut with more characters of the literal in front. -/
def LiteralTail.after (chars : Text) (tail : LiteralTail) : LiteralTail :=
  { tail with text := chars ++ tail.text }

/-- Reads on after an opening quote. Two quotes stand for one; a single quote closes. -/
def Text.literalTail : Text → LiteralTail
  | [] => ⟨[], false, []⟩
  | c :: t =>
    if c = '"' then
      match t with
      | '"' :: more => (literalTail more).after ['"', '"']
      | _ => ⟨['"'], true, t⟩
    else (literalTail t).after [c]

/-- A literal and what follows it make up the text. -/
theorem Text.literalTail_whole (t : Text) :
    (literalTail t).text ++ (literalTail t).rest = t := by
  fun_induction literalTail t <;> simp_all [LiteralTail.after]

/-- What follows a literal is no longer than the text it was cut from. -/
theorem Text.length_rest_literalTail_le (t : Text) :
    (literalTail t).rest.length ≤ t.length := by
  have whole := congrArg List.length (literalTail_whole t)
  rw [List.length_append] at whole
  omega

/-- An unclosed literal runs to the end of the text. -/
theorem Text.rest_literalTail_of_unclosed {t : Text} (unclosed : (literalTail t).closed = false) :
    (literalTail t).rest = [] := by
  fun_induction literalTail t with
  | case1 => rfl
  | case2 t ih => exact ih unclosed
  | case3 => cases unclosed
  | case4 c t _ ih => exact ih unclosed

/-- Where a literal stops. -/
structure LiteralEnd where
  /-- The position behind the literal. -/
  stop : Nat
  /-- Whether a closing quote ends the literal. -/
  closed : Bool
  deriving DecidableEq

/-- The end of the literal whose opening quote stands at `start`; without a closing quote that is
the end of the text. -/
def Text.literalEndAt (t : Text) (start : Nat) : LiteralEnd :=
  let tail := literalTail (t.drop (start + 1))
  if tail.closed then ⟨start + 1 + tail.text.length, true⟩
  else ⟨max t.length start, false⟩

/-- The same end where nothing from `limit` on is looked at. -/
def Text.literalEndWithin (t : Text) (start limit : Nat) : LiteralEnd :=
  literalEndAt (t.take limit) start

/-- A part of a text that the readers treat as one. -/
inductive Piece where
  /-- A character outside string literals. -/
  | char (c : Char)
  /-- A string literal with its quotes. -/
  | literal (text : Text) (closed : Bool)
  deriving DecidableEq

namespace Piece

/-- The characters of a piece. -/
def text : Piece → Text
  | char c => [c]
  | literal text _ => text

/-- The character of a piece that is no literal. -/
def char? : Piece → Option Char
  | char c => some c
  | literal _ _ => none

/-- Whether the piece is a character of the class; a literal belongs to none. -/
def satisfies (p : Char → Bool) (piece : Piece) : Bool :=
  piece.char?.any p

/-- Whether the piece is a literal without a closing quote. -/
def isUnclosed : Piece → Bool
  | char _ => false
  | literal _ closed => !closed

end Piece

/-- The characters and literals of a text, in order. -/
def pieces : Text → List Piece
  | [] => []
  | c :: t =>
    if c = '"' then
      .literal ('"' :: (Text.literalTail t).text) (Text.literalTail t).closed ::
        pieces (Text.literalTail t).rest
    else .char c :: pieces t
termination_by t => t.length
decreasing_by
  · have := Text.length_rest_literalTail_le t
    simp only [List.length_cons]
    omega
  · simp

/-- Every string literal of the text is closed. -/
def Text.LiteralsClosed (t : Text) : Prop :=
  ∀ p ∈ pieces t, p.isUnclosed = false

/-- The text that pieces make up. -/
def textOf (ps : List Piece) : Text :=
  ps.flatMap Piece.text

/-- Cutting a text into pieces loses nothing. -/
theorem textOf_pieces (t : Text) : textOf (pieces t) = t := by
  fun_induction pieces t with
  | case1 => rfl
  | case2 t ih =>
    rw [textOf, List.flatMap_cons, ← textOf, ih]
    simp [Piece.text, Text.literalTail_whole]
  | case3 c t _ ih =>
    rw [textOf, List.flatMap_cons, ← textOf, ih]
    rfl

end SheetFormula
