import SheetFormula.Proofs.Format.Padding
import SheetFormula.Proofs.Text.Literals

/-!
# Literals between spaces

The steps that set the operators of a leaf between spaces change no gap in a way that would let two
literals touch each other, or put a blank behind an unclosed one (`regapped_literals`). So the
padded pieces are what their text is cut into (`pieces_spaced`), for every text: padding keeps the
literals of a text, and what stands between them apart from blanks
(`Text.literals_spaced_withoutBlanks`).

## Main definitions

* `Piece.Change.literals` — what keeps literals apart
* `Text.withoutBlanks` — a text without the blanks outside its literals
-/

namespace SheetFormula

open Piece

variable {p : Piece} {ps qs before : List Piece} {t : Text}

/-! ## Gaps behind literals -/

/-- A gap between two literals does not go, and where it is empty, as behind a last literal, it
stays so. -/
def Piece.Change.literals : Change := fun before gap gap' after =>
  ∀ p ∈ before.head?, p.char? = none →
    ((∀ q ∈ after.head?, q.char? = none) → gap = [] → gap' = []) ∧
      ((∃ q ∈ after.head?, q.char? = none) → gap' = [] → gap = [])

theorem Piece.satisfies_literal {class' : Char → Bool} (noChar : p.char? = none) :
    p.satisfies class' = false := by
  rw [satisfies, noChar]
  rfl

/-- No rule about references takes a gap between literals away. -/
theorem Piece.not_edge_literals {q : Piece} {edge : Piece → Piece → Prop}
    (isEdge : edge ∈ [RangeEdge, ColumnEdge, RowEdge]) (left : p.char? = none)
    (right : q.char? = none) : ¬edge p q := by
  have noColon : ¬RangeEdge p q := by
    rintro ⟨rfl | rfl, -⟩
    · cases left
    · cases right
  have noDollar : ¬RowEdge p q := by
    rintro ⟨rfl | rfl, -⟩
    · cases left
    · cases right
  simp only [List.mem_cons, List.not_mem_nil, or_false] at isEdge
  rcases isEdge with rfl | rfl | rfl
  · exact noColon
  · rintro (dollar | ⟨letter, -⟩)
    · exact noDollar dollar
    · rw [satisfies_literal left] at letter
      cases letter
  · exact noDollar

theorem regapped_literals (quoted : Quoted ps) :
    Regapped Change.literals [] ps (spacedPieces ps) := by
  refine regapped_spacedPieces ?trans ?pads ?shrinks ?signs ?clears ?trims quoted
  case trans =>
    intro before gap gap' gap'' after first second p isFirst noChar
    obtain ⟨stays, kept⟩ := first p isFirst noChar
    obtain ⟨stays', kept'⟩ := second p isFirst noChar
    exact ⟨fun all none => stays' all (stays all none),
      fun some none => kept some (kept' some none)⟩
  case pads =>
    rintro before gap gap' after (rfl | ⟨rfl, -, operator⟩) p isFirst noChar
    · exact ⟨fun _ => id, fun _ => id⟩
    · refine ⟨fun all _ => ?_, fun _ _ => rfl⟩
      -- beside a literal and no character, there is no operator
      rcases operator with ⟨q, isNext, operator⟩ | ⟨q, isNext, operator⟩
      · rw [← Option.mem_unique isFirst isNext, isOperator, satisfies_literal noChar] at operator
        cases operator
      · rw [isOperator, satisfies_literal (all q isNext)] at operator
        cases operator
  case shrinks =>
    rintro before gap gap' after (⟨-, rfl⟩ | ⟨long, rfl⟩) p - -
    · exact ⟨fun _ => id, fun _ => id⟩
    · exact ⟨fun _ none => by simp [none] at long, fun _ none => by cases none⟩
  case signs =>
    rintro before gap gap' after (⟨edge, rfl⟩ | ⟨-, rfl | ⟨rfl, edge⟩⟩) p isFirst noChar
    · obtain ⟨_, _, _, rfl, -⟩ := edge
      cases isFirst
      cases noChar
    · exact ⟨fun _ => id, fun _ => id⟩
    · obtain ⟨opening, -⟩ := edge
      rw [opening p isFirst] at noChar
      cases noChar
  case clears =>
    rintro edge isEdge before gap gap' after (rfl | ⟨rfl, p, isFirst, q, isNext, joined⟩) r isFirst'
      noChar
    · exact ⟨fun _ => id, fun _ => id⟩
    · refine ⟨fun _ _ => rfl, ?_⟩
      rintro ⟨q', isNext', noChar'⟩
      rw [← Option.mem_unique isFirst isFirst'] at noChar
      rw [← Option.mem_unique isNext isNext'] at noChar'
      cases not_edge_literals isEdge noChar noChar' joined
  case trims =>
    rintro before gap gap' after (⟨ends, rfl⟩ | ⟨-, rfl⟩) p isFirst noChar
    · refine ⟨fun _ _ => rfl, ?_⟩
      rintro ⟨q, isNext, -⟩
      rcases ends with rfl | rfl
      · cases isFirst
      · cases isNext
    · exact ⟨fun _ => id, fun _ => id⟩

/-! ## Pieces of the padded text -/

theorem pieces_cons_char {c : Char} (noQuote : c ≠ '"') :
    pieces (c :: t) = .char c :: pieces t := by
  rw [pieces, if_neg noQuote]

/-- Pieces of their own text that begin with a character go on with the pieces of the rest. -/
theorem cut_char {c : Char} (cut : pieces (textOf (.char c :: ps)) = .char c :: ps) :
    c ≠ '"' ∧ pieces (textOf ps) = ps := by
  have whole : textOf (.char c :: ps) = c :: textOf ps := rfl
  by_cases isQuote : c = '"'
  · rw [whole, pieces, if_pos isQuote] at cut
    cases cut
  · rw [whole, pieces_cons_char isQuote] at cut
    exact ⟨isQuote, (List.cons.inj cut).2⟩

/-- And those that begin with a literal too, where this stops at its end and not before. -/
theorem cut_literal {text : Text} {closed : Bool}
    (cut : pieces (textOf (.literal text closed :: ps)) = .literal text closed :: ps) :
    ∃ tail, text = '"' :: tail ∧ Text.literalTail (tail ++ textOf ps) = ⟨tail, closed, textOf ps⟩ ∧
      pieces (textOf ps) = ps := by
  obtain ⟨tail, rfl⟩ := List.head?_eq_some_iff.1
    (quoted_pieces _ text closed (cut ▸ List.mem_cons_self))
  have whole : textOf (.literal ('"' :: tail) closed :: ps) = '"' :: (tail ++ textOf ps) := rfl
  rw [whole, pieces, if_pos rfl] at cut
  obtain ⟨first, behind⟩ := List.cons.inj cut
  obtain ⟨sameText, sameClosed⟩ := Piece.literal.inj first
  have rest := Text.literalTail_whole (tail ++ textOf ps)
  cases ends : Text.literalTail (tail ++ textOf ps) with
  | mk text' closed' rest' =>
    rw [ends] at sameText sameClosed behind rest
    obtain rfl : text' = tail := (List.cons.inj sameText).2
    obtain rfl := List.append_cancel_left rest
    exact ⟨text', rfl, ends.trans (by rw [← sameClosed]), behind⟩

section Regapped

variable {gap : List Piece}

/-- Blanks are cut piece by piece. -/
theorem pieces_gap (blanks : Blanks gap) (ps : List Piece) :
    pieces (textOf (gap ++ ps)) = gap ++ pieces (textOf ps) := by
  induction gap with
  | nil => rfl
  | cons b gap ih =>
    obtain ⟨blank, others⟩ := blanks_cons.1 blanks
    cases b with
    | literal => cases blank
    | char c =>
      show pieces (c :: textOf (gap ++ ps)) = _
      rw [pieces_cons_char (Text.ne_quote_of_isBlank blank), ih others]
      rfl

theorem head?_textOf_blanks (blanks : Blanks gap) (nonempty : gap ≠ []) (ps : List Piece) :
    (textOf (gap ++ ps)).head? ≠ some '"' := by
  obtain ⟨b, gap, rfl⟩ := List.exists_cons_of_ne_nil nonempty
  have blank := (blanks_cons.1 blanks).1
  cases b with
  | literal => cases blank
  | char c => exact fun isQuote => Text.ne_quote_of_isBlank blank (Option.some.inj isQuote)

/-- Behind a literal, other gaps bring no quote. -/
theorem Piece.Regapped.head?_textOf (noChar : p.char? = none)
    (regapped : Regapped Change.literals (p :: before) ps qs) (cut : pieces (textOf ps) = ps)
    (noQuote : (textOf ps).head? ≠ some '"') : (textOf qs).head? ≠ some '"' := by
  cases regapped with
  | last _ blanks' =>
    by_cases none : qs = []
    · rw [none]
      exact fun isQuote => by cases isQuote
    · have blank := head?_textOf_blanks blanks' none []
      rwa [List.append_nil] at blank
  | @next _ gap gap' ps qs q blanks blanks' noBlank changed behind =>
    by_cases none : gap' = []
    · subst none
      rw [pieces_gap blanks] at cut
      have cut := List.append_cancel_left cut
      cases q with
      | char c => exact fun isQuote => (cut_char cut).1 (Option.some.inj isQuote)
      | literal text closed =>
        obtain ⟨tail, rfl, -⟩ := cut_literal cut
        rw [(changed p rfl noChar).2 ⟨_, rfl, rfl⟩ rfl] at noQuote
        exact absurd rfl noQuote
    · exact head?_textOf_blanks blanks' none _

/-- Pieces stay the pieces of their text where other gaps keep the literals apart. -/
theorem Piece.Regapped.cut (regapped : Regapped Change.literals before ps qs)
    (cut : pieces (textOf ps) = ps) : pieces (textOf qs) = qs := by
  induction regapped with
  | last _ blanks' =>
    have whole := pieces_gap blanks' []
    have nothing : pieces (textOf []) = [] := by rw [textOf, List.flatMap_nil, pieces]
    rwa [nothing, List.append_nil] at whole
  | @next before gap gap' ps qs p blanks blanks' _ _ behind ih =>
    rw [pieces_gap blanks] at cut
    have cut := List.append_cancel_left cut
    rw [pieces_gap blanks']
    refine congrArg (gap' ++ ·) ?_
    cases p with
    | char c =>
      obtain ⟨noQuote, later⟩ := cut_char cut
      exact (pieces_cons_char noQuote).trans (congrArg _ (ih later))
    | literal text closed =>
      obtain ⟨tail, rfl, ends, later⟩ := cut_literal cut
      have ends' : Text.literalTail (tail ++ textOf qs) = ⟨tail, closed, textOf qs⟩ := by
        cases closed with
        | true =>
          have noQuote := Text.head?_rest_literalTail (t := tail ++ textOf ps) (by rw [ends])
          rw [ends] at noQuote
          have same := Text.literalTail_append (t := tail ++ textOf ps) (by rw [ends])
            (behind.head?_textOf rfl later noQuote)
          rwa [ends] at same
        | false =>
          -- an unclosed literal is the last piece, and stays that
          have nothing := Text.rest_literalTail_of_unclosed (t := tail ++ textOf ps) (by rw [ends])
          rw [ends] at nothing
          have nothing : textOf ps = [] := nothing
          rw [nothing, pieces] at later
          subst later
          obtain ⟨-, changed⟩ := behind.of_blanks blanks_nil
          rwa [(changed _ rfl rfl).1 (fun _ isNext => by cases isNext) rfl]
      show pieces ('"' :: (tail ++ textOf qs)) = _
      rw [pieces, if_pos rfl, ends', ih later]

end Regapped

/-- The padded pieces of a text are the pieces of the padded text. -/
theorem pieces_spaced (t : Text) : pieces (Text.spaced t) = spacedPieces (pieces t) :=
  (regapped_literals (quoted_pieces t)).cut (by rw [textOf_pieces])

/-! ## Literals of the padded text -/

/-- No two literals come together between spaces. -/
theorem proper_spacedPieces (proper : Proper ps) : Proper (spacedPieces ps) := by
  have same := proper.pieces_textOf
  have cut := pieces_spaced (textOf ps)
  rw [same] at cut
  have solids := solid_spacedPieces (quoted_pieces (textOf ps))
  rw [same] at solids
  rw [← cut]
  refine proper_pieces fun p met => ?_
  rw [cut] at met
  cases p with
  | char c => rfl
  | literal text closed =>
    have kept : Piece.literal text closed ∈ solid (spacedPieces ps) := List.mem_filter.2 ⟨met, rfl⟩
    rw [solids] at kept
    exact (proper.whole _ (List.mem_filter.1 kept).1).isUnclosed

namespace Text

/-- The text without the blanks outside its literals. -/
def withoutBlanks (t : Text) : Text :=
  textOf (solid (SheetFormula.pieces t))

/-- For every text, padding changes blanks outside literals only: the literals stay, closed or not,
and so does all that stands between them apart from blanks. -/
theorem literals_spaced_withoutBlanks (t : Text) :
    (Text.spaced t).literals = t.literals ∧
      (Text.spaced t).withoutBlanks = t.withoutBlanks := by
  have same := solid_spacedPieces (quoted_pieces t)
  rw [Text.literals, Text.literals, withoutBlanks, withoutBlanks, pieces_spaced, same]
  refine ⟨?_, rfl⟩
  rw [← Piece.literals_solid, same, Piece.literals_solid]

/-- A text keeps its literals when its operators are set between spaces. -/
theorem Holds.spaced {ls : List Text} (holds : t.Holds ls) : (Text.spaced t).Holds ls := by
  have spaced := holds_textOf (proper_spacedPieces (proper_pieces holds.closed))
  rwa [← Piece.literals_solid, solid_spacedPieces (quoted_pieces t), Piece.literals_solid,
    ← Text.literals, holds.literals] at spaced

end Text

end SheetFormula
