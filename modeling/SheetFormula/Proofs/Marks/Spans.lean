import SheetFormula.Formula.Mark
import SheetFormula.Formula.Separator
import SheetFormula.Proofs.Text.Literals
import SheetFormula.Proofs.Text.Quoting

/-!
# Where the literals stand

The literals of a text are found one after the other: at the first quote a literal is scanned, and
the search goes on where it stops. What is found in this way are the literals among the marks of the
text (`Text.literalSpans_eq`), so a character is a piece of the text exactly if it stands outside
all of them (`Text.char_mem_pieces_iff`). The separator of a formula is told otherwise, by changing
sides at every quote. Both agree: the quotes inside a literal come in pairs, so the semicolons that
are met outside are the same (`Separator.ofText_eq_semicolon_iff`).

## Main definitions

* `LiteralSpan` — a literal where it stands in a text
* `Text.literalSpans` — the literals that scans from left to right find
* `Text.Outside` — a position that no literal covers
-/

namespace SheetFormula

/-- A literal where it stands in a text. -/
structure LiteralSpan extends LiteralEnd where
  /-- The position of the opening quote. -/
  start : Nat
  deriving DecidableEq

namespace Mark

/-- The literal at the mark, unless it is a character. -/
def span? (m : Mark) : Option LiteralSpan :=
  match m.piece with
  | .char _ => none
  | .literal text closed => some ⟨⟨m.position + text.length, closed⟩, m.position⟩

/-- The literals among the marks. -/
def spans (ms : List Mark) : List LiteralSpan :=
  ms.filterMap span?

theorem spans_place_char (position : Nat) (indented : Bool) (c : Char) (ps : List Piece) :
    spans (place position indented (.char c :: ps)) =
      spans (place (position + 1) (Text.staysIndented indented c) ps) := rfl

theorem spans_place_literal (position : Nat) (indented : Bool) (text : Text) (closed : Bool)
    (ps : List Piece) :
    spans (place position indented (.literal text closed :: ps)) =
      ⟨⟨position + text.length, closed⟩, position⟩ ::
        spans (place (position + text.length) (text.foldl Text.staysIndented indented) ps) := rfl

/-- Marks from a position on have no literals in front of it. -/
theorem le_start_of_mem_spans {position : Nat} {indented : Bool} {ps : List Piece}
    {span : LiteralSpan} (met : span ∈ spans (place position indented ps)) :
    position ≤ span.start := by
  induction ps generalizing position indented with
  | nil => cases met
  | cons p ps ih =>
    cases p with
    | char c => exact Nat.le_of_succ_le (ih met)
    | literal text closed =>
      rw [spans_place_literal] at met
      rcases List.mem_cons.1 met with rfl | met
      · exact le_rfl
      · exact Nat.le_of_add_right_le (ih met)

end Mark

namespace Text

variable {c : Char} {t : Text} {position : Nat}

/-- A scan goes ahead. -/
theorem lt_stop_literalEndAt (within : position < t.length) :
    position < (literalEndAt t position).stop := by
  simp only [literalEndAt]
  split
  · exact Nat.lt_add_right _ (Nat.lt_succ_self position)
  · exact Nat.lt_of_lt_of_le within (Nat.le_max_left _ _)

/-- The literals from a position on. At a quote a literal is scanned, and the search goes on where
it stops. -/
def literalSpansFrom (t : Text) (position : Nat) : List LiteralSpan :=
  if within : position < t.length then
    if t[position] = '"' then
      ⟨literalEndAt t position, position⟩ :: literalSpansFrom t (literalEndAt t position).stop
    else literalSpansFrom t (position + 1)
  else []
termination_by t.length - position
decreasing_by
  · exact Nat.sub_lt_sub_left within (lt_stop_literalEndAt within)
  · exact Nat.sub_lt_sub_left within (Nat.lt_succ_self position)

/-- The literals of a text, scanned from left to right. -/
def literalSpans (t : Text) : List LiteralSpan :=
  literalSpansFrom t 0

/-- No literal of the text covers the position. -/
def Outside (t : Text) (position : Nat) : Prop :=
  ∀ span ∈ t.literalSpans, position < span.start ∨ span.stop ≤ position

instance (t : Text) (position : Nat) : Decidable (t.Outside position) :=
  inferInstanceAs (Decidable (∀ span ∈ t.literalSpans, _))

/-! ## Scans from left to right -/

theorem literalSpansFrom_length (t : Text) : literalSpansFrom t t.length = [] := by
  rw [literalSpansFrom, dif_neg (Nat.lt_irrefl _)]

theorem literalSpansFrom_other (noQuote : c ≠ '"') (p t : Text) :
    literalSpansFrom (p ++ c :: t) p.length = literalSpansFrom (p ++ c :: t) (p.length + 1) := by
  rw [literalSpansFrom, dif_pos (by simp), if_neg (by simpa using noQuote)]

theorem literalSpansFrom_quote (p t : Text) :
    literalSpansFrom (p ++ '"' :: t) p.length =
      ⟨literalEndAt (p ++ '"' :: t) p.length, p.length⟩ ::
        literalSpansFrom (p ++ '"' :: t) (literalEndAt (p ++ '"' :: t) p.length).stop := by
  rw [literalSpansFrom, dif_pos (by simp), if_pos (by simp)]

/-- Closed or not, a literal stops behind the text that is read of it. -/
theorem literalEndAt_quote (p t : Text) :
    literalEndAt (p ++ '"' :: t) p.length =
      ⟨(p ++ '"' :: (literalTail t).text).length, (literalTail t).closed⟩ := by
  rw [literalEndAt_append]
  cases closed : (literalTail t).closed with
  | true => simp [Nat.add_assoc, Nat.add_comm]
  | false =>
    have whole := literalTail_whole t
    rw [rest_literalTail_of_unclosed closed, List.append_nil] at whole
    rw [whole]
    rfl

/-- From any place on, the scans find the literals among the marks. -/
theorem literalSpansFrom_append (p t : Text) (indented : Bool) :
    literalSpansFrom (p ++ t) p.length = Mark.spans (Mark.place p.length indented (pieces t)) := by
  fun_induction pieces t generalizing p indented with
  | case1 => rw [List.append_nil, literalSpansFrom_length]; rfl
  | case2 t ih =>
    have whole : p ++ '"' :: t = p ++ '"' :: (literalTail t).text ++ (literalTail t).rest := by
      rw [List.append_assoc, List.cons_append, literalTail_whole]
    rw [literalSpansFrom_quote, literalEndAt_quote, Mark.spans_place_literal, whole,
      ih (p ++ '"' :: (literalTail t).text), List.length_append]
  | case3 c t noQuote ih =>
    have next := ih (p ++ [c]) (staysIndented indented c)
    rw [← List.append_cons, List.length_append, List.length_singleton] at next
    rw [literalSpansFrom_other noQuote, Mark.spans_place_char, next]

/-- The literals that scans from left to right find are those among the marks. -/
theorem literalSpans_eq (t : Text) : t.literalSpans = Mark.spans (marks t) :=
  literalSpansFrom_append [] t false

/-! ## Characters outside literals -/

/-- A character is among placed pieces exactly if their text has it where no literal covers it. -/
theorem char_mem_iff (ps : List Piece) (position : Nat) (indented : Bool) :
    .char c ∈ ps ↔ ∃ i, (textOf ps)[i]? = some c ∧
      ∀ span ∈ Mark.spans (Mark.place position indented ps),
        position + i < span.start ∨ span.stop ≤ position + i := by
  induction ps generalizing position indented with
  | nil => simp [textOf]
  | cons p ps ih =>
    rw [List.mem_cons, textOf_cons]
    cases p with
    | char d =>
      rw [Mark.spans_place_char, ih (position + 1) (staysIndented indented d)]
      conv_rhs => rw [← Nat.or_exists_add_one]
      refine or_congr ?_ (exists_congr fun i => ?_)
      · have behind : ∀ span ∈ Mark.spans (Mark.place (position + 1) (staysIndented indented d) ps),
            position + 0 < span.start ∨ span.stop ≤ position + 0 :=
          fun span met => .inl (Mark.le_start_of_mem_spans met)
        rw [and_iff_left behind]
        simp [Piece.text, eq_comm]
      · rw [Piece.text, List.singleton_append, List.getElem?_cons_succ, Nat.add_right_comm,
          Nat.add_assoc]
    | literal text closed =>
      rw [Mark.spans_place_literal,
        ih (position + text.length) (text.foldl staysIndented indented)]
      simp only [reduceCtorEq, false_or, List.forall_mem_cons, Piece.text]
      constructor
      · rintro ⟨i, found, outside⟩
        refine ⟨text.length + i, ?_, .inr (by omega), ?_⟩
        · rwa [List.getElem?_append_right (by omega), Nat.add_sub_cancel_left]
        · rwa [← Nat.add_assoc]
      · rintro ⟨i, found, first, outside⟩
        -- the literal covers its own characters, so the place is behind it
        obtain ⟨j, rfl⟩ := Nat.exists_eq_add_of_le (show text.length ≤ i by omega)
        refine ⟨j, ?_, ?_⟩
        · rwa [List.getElem?_append_right (by omega), Nat.add_sub_cancel_left] at found
        · rwa [← Nat.add_assoc] at outside

/-- A character is a piece of a text exactly if it stands outside literals. -/
theorem char_mem_pieces_iff (c : Char) (t : Text) :
    .char c ∈ pieces t ↔ ∃ i, t[i]? = some c ∧ t.Outside i := by
  have placed := char_mem_iff (c := c) (pieces t) 0 false
  rw [textOf_pieces] at placed
  simp only [Nat.zero_add] at placed
  simp only [Outside, literalSpans_eq]
  exact placed

end Text

/-! ## The separator -/

namespace Separator

/-- The quotes in a literal come in pairs, so changing sides at each of them leads outside again
where the literal stops. -/
theorem ofTextFrom_literalTail (t : Text) :
    ofTextFrom true t = ofTextFrom false (Text.literalTail t).rest := by
  fun_induction Text.literalTail t with
  | case1 => rfl
  | case2 t ih => exact ih
  | case3 => rfl
  | case4 c t noQuote ih =>
    rw [ofTextFrom, if_neg noQuote, if_neg (by simp)]
    exact ih

/-- The separator of a formula is the semicolon if one stands outside literals. -/
theorem ofText_eq (t : Text) : ofText t = if .char ';' ∈ pieces t then semicolon else comma := by
  rw [ofText]
  fun_induction pieces t with
  | case1 => rfl
  | case2 t ih =>
    rw [ofTextFrom, if_pos rfl, Bool.not_false, ofTextFrom_literalTail, ih]
    simp
  | case3 c t noQuote ih =>
    rw [ofTextFrom, if_neg noQuote]
    by_cases isSemicolon : c = ';'
    · rw [if_pos ⟨isSemicolon, rfl⟩, if_pos (by simp [isSemicolon])]
    · rw [if_neg (by simp [isSemicolon]), ih]
      simp [Ne.symm isSemicolon]

/-- The semicolon is the separator of a text exactly if one stands outside all literals that scans
from left to right find, be they closed or not. -/
theorem ofText_eq_semicolon_iff (t : Text) :
    ofText t = semicolon ↔ ∃ i, t[i]? = some ';' ∧ t.Outside i := by
  rw [ofText_eq, ← Text.char_mem_pieces_iff]
  split
  · next met => exact iff_of_true rfl met
  · next absent => exact iff_of_false (by decide) absent

/-- One semicolon stands in a literal with a pair of quotes, one in a literal without an end. -/
example : Text.literalSpans "1&\"\"\";\"&\";".toList = [⟨⟨7, true⟩, 2⟩, ⟨⟨10, false⟩, 8⟩] := by
  decide +kernel

end Separator

end SheetFormula
