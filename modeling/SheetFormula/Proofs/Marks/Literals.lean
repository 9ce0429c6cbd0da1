import SheetFormula.Proofs.Marks.Placed
import SheetFormula.Proofs.Text.Literals

/-!
# Literals of marks

Layout, parentheses and separators are no literals, so marks have the literals of the parts that
they are cut into (`Mark.literals_argumentParts`). A pending token and the marks behind it have
the same pieces after each mark that joins the token (`Mark.joined_append`).

## Main definitions

* `Mark.literals` — the string literals among marks
* `Mark.joined` — the pieces of a pending token and of the marks behind it
-/

namespace SheetFormula

open Piece (Proper)

namespace Mark

/-- The string literals among the marks. -/
def literals (ms : List Mark) : List Text :=
  Piece.literals (ms.map piece)

variable {separator : Separator} {pending : Text} {m mark : Mark} {ms ns rest : List Mark}

@[simp] theorem literals_append : literals (ms ++ ns) = literals ms ++ literals ns := by
  rw [literals, List.map_append, Piece.literals_append]
  rfl

theorem literals_cons_char {c : Char} (isChar : m.char? = some c) :
    literals (m :: ms) = literals ms := by
  rw [literals, List.map_cons, piece_of_char? isChar]
  rfl

theorem literals_layout (genuine : AllGenuine ms) (layout : ∀ m ∈ ms, m.isLayout = true) :
    literals ms = [] := by
  induction ms with
  | nil => rfl
  | cons m ms ih =>
    obtain ⟨first, behind⟩ := List.forall_mem_cons.1 layout
    obtain ⟨c, isChar, -⟩ := genuine.head.char?_of_layout first
    rw [literals_cons_char isChar, ih genuine.tail behind]

theorem literals_trimmed (genuine : AllGenuine ms) (closed : ∀ m ∈ ms, m.isUnclosed = false) :
    literals (trimmed ms) = literals ms := by
  obtain ⟨lead, trail, whole, leading, trailing⟩ := trimEnds_split isLayout ms
  rw [whole] at genuine
  obtain ⟨front, behind⟩ := allGenuine_append.1 genuine
  rw [trimmed_eq closed]
  conv => rhs; rw [whole]
  rw [literals_append, literals_append, literals_layout (allGenuine_append.1 front).1 leading,
    literals_layout behind trailing, List.append_nil, List.nil_append]

theorem literals_opening {opening : Mark} {inside tail : List Mark}
    (isOpening : opening.char? = some '(') (closes : Closes inside tail) :
    literals (opening :: (inside ++ tail)) = literals inside ++ literals tail.tail := by
  rw [literals_cons_char isOpening, literals_append]
  cases closes with
  | never => rfl
  | behind isClosing => rw [literals_cons_char isClosing, List.tail_cons]

theorem Divides.literals {depth : Nat} {parts : List (List Mark)}
    (divides : Divides separator depth ms parts) :
    Mark.literals ms = (parts.map Mark.literals).flatten := by
  induction divides with
  | last => simp
  | next _ _ _ isSeparator _ ih =>
    rw [literals_append, literals_cons_char isSeparator, ih, List.map_cons, List.flatten_cons]

theorem literals_argumentParts (separator : Separator) (genuine : AllGenuine ms)
    (enclosed : Enclosed 0 ms) :
    literals ms = ((argumentParts separator ms).map literals).flatten := by
  rcases argumentParts_eq_nil_or_divides separator enclosed with ⟨none, layout⟩ | divides
  · rw [none, literals_layout genuine layout]
    rfl
  · exact divides.literals

/-! ## Pending tokens -/

/-- The pieces of a pending token, and of the marks behind it. -/
def joined (pending : Text) (ms : List Mark) : List Piece :=
  pieces pending ++ ms.map piece

theorem joined_nil : joined [] ms = ms.map piece := by
  rw [joined, pieces, List.nil_append]

theorem literals_joined :
    Piece.literals (joined pending ms) = Piece.literals (pieces pending) ++ literals ms :=
  Piece.literals_append

theorem holds_token (proper : Proper (joined pending ms)) :
    pending.Holds (Piece.literals (pieces pending)) := by
  have token := Text.holds_textOf (proper.of_isInfix (List.prefix_append _ _).isInfix)
  rwa [textOf_pieces] at token

/-- A mark may join the token as it stands. -/
theorem joined_append (proper : Proper (joined pending (mark :: rest))) :
    joined (pending ++ mark.piece.text) rest = joined pending (mark :: rest) := by
  have whole : joined pending (mark :: rest) =
      pieces pending ++ [mark.piece] ++ rest.map piece := by
    rw [joined, List.map_cons, List.append_assoc, List.singleton_append]
  rw [whole] at proper ⊢
  have cut := (proper.of_isInfix (List.prefix_append _ _).isInfix).pieces_textOf
  rw [textOf_append, textOf_pieces, textOf, List.flatMap_singleton] at cut
  rw [joined, cut]

theorem pieces_join (proper : Proper (joined pending (mark :: rest))) :
    pieces (pending ++ mark.piece.text) = pieces pending ++ [mark.piece] := by
  have cut := joined_append proper
  rw [joined, joined, List.map_cons, List.append_cons] at cut
  exact List.append_cancel_right cut

/-- A space may join the token in place of a character. -/
theorem joined_space {c : Char} (proper : Proper (joined pending (mark :: rest)))
    (isChar : mark.piece = .char c) :
    Proper (joined (pending ++ [' ']) rest) ∧
      Piece.literals (joined (pending ++ [' ']) rest) =
        Piece.literals (joined pending (mark :: rest)) := by
  have space : pieces [' '] = [.char ' '] := Text.pieces_of_noQuote (by decide)
  have cut : joined (pending ++ [' ']) rest = pieces pending ++ .char ' ' :: rest.map piece := by
    rw [joined, Text.pieces_append (holds_token proper).closed
      (Text.literalsClosed_of_noQuote (by decide)) (.inr (by simp)), space, List.append_assoc]
    rfl
  rw [cut, joined, List.map_cons, isChar]
  rw [joined, List.map_cons, isChar] at proper
  constructor
  · have front := proper.of_isInfix (List.prefix_append _ _).isInfix
    have behind := (proper.of_isInfix (List.suffix_append _ _).isInfix).tail
    exact front.append (behind.cons_char (by decide)) (.inr (by simp [Piece.char?]))
  · simp [Piece.literals_cons_char]

/-- Marks from among those behind a token stand behind no token. -/
theorem proper_fresh (proper : Proper (joined pending ms)) (within : ns <:+: ms) :
    Proper (joined [] ns) := by
  rw [joined_nil]
  exact proper.of_isInfix ((within.map piece).trans (List.suffix_append _ _).isInfix)

theorem closed_of_proper (proper : Proper (joined pending ms)) :
    ∀ m ∈ ms, m.isUnclosed = false :=
  fun m met => (proper.whole m.piece (List.mem_append_right _ (List.mem_map_of_mem met))).isUnclosed

theorem proper_marks {t : Text} (closed : t.LiteralsClosed) : Proper (joined [] (marks t)) := by
  rw [joined_nil, map_piece_marks]
  exact Piece.proper_pieces closed

end Mark

end SheetFormula
