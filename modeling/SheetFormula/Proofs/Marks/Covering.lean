import SheetFormula.Proofs.Marks.Placed
import SheetFormula.Proofs.Text.Literals

/-!
# Marks that cover a text

A stretch of marks stands for a text that begins at some place of a formula. Where the text is put
together, the marks are cut (`Covers.of_append`), and of each part it is known which of its marks
are layout: all those of a margin, and of a text without connectors in indentations the blanks.

## Main definitions

* `Mark.Covers` — the marks of a text, wherever that stands
* `Mark.Written` — marks of a text of which no others than blanks are layout
-/

namespace SheetFormula

/-- A text with closed literals is cut into its own pieces whatever follows, unless two quotes meet
there. -/
theorem Text.pieces_append_of_closed {s : Text} (closed : s.LiteralsClosed) (t : Text)
    (apart : s.getLast? ≠ some '"' ∨ t.head? ≠ some '"') :
    pieces (s ++ t) = pieces s ++ pieces t := by
  unfold Text.LiteralsClosed at closed
  fun_induction pieces s with
  | case1 => rfl
  | case2 s ih =>
    obtain ⟨first, others⟩ := List.forall_mem_cons.1 closed
    have ends : (literalTail s).closed = true := by simpa [Piece.isUnclosed] using first
    have last := getLast?_literalTail ends
    -- the literal stops where it did, because no quote follows its closing one
    have head : ((literalTail s).rest ++ t).head? ≠ some '"' := by
      have noQuote := head?_rest_literalTail ends
      cases rest : (literalTail s).rest with
      | cons d rest => rwa [rest] at noQuote
      | nil =>
        refine apart.resolve_left fun noLast => noLast ?_
        rw [← literalTail_whole s, rest, List.append_nil, List.getLast?_cons, last]
        rfl
    have same := literalTail_append ends head
    rw [← List.append_assoc, literalTail_whole] at same
    have rest : (literalTail s).rest.getLast? ≠ some '"' ∨ t.head? ≠ some '"' := by
      refine apart.imp_left fun noLast isLast => noLast ?_
      rw [← literalTail_whole s, ← List.cons_append, List.getLast?_append, isLast]
      rfl
    rw [List.cons_append, pieces, if_pos rfl, same, ih others rest, ends]
    rfl
  | case3 c s noQuote ih =>
    obtain ⟨-, others⟩ := List.forall_mem_cons.1 closed
    rw [List.cons_append, pieces, if_neg noQuote, ih others ?_, List.cons_append]
    refine apart.imp_left fun noLast isLast => noLast ?_
    rw [List.getLast?_cons, isLast]
    rfl

namespace Mark

/-- The marks are those of a text that begins in the indentation of a line, or does not. -/
structure Covers (indented : Bool) (t : Text) (ms : List Mark) : Prop where
  pieces : ms.map piece = SheetFormula.pieces t
  placed : Placed indented ms

/-- The marks are those of a text, and only its blanks are layout. -/
structure Written (t : Text) (ms : List Mark) : Prop where
  pieces : ms.map piece = SheetFormula.pieces t
  layout : ∀ m ∈ ms, m.isLayout = m.piece.satisfies Text.isBlank

variable {i : Bool} {c : Char} {s t : Text} {m : Mark} {ms ns : List Mark}

theorem covers_marks (t : Text) : Covers false t (marks t) :=
  ⟨map_piece_marks t, placed_place 0 false _⟩

/-! ## Cuts -/

theorem Covers.sourceText_eq (covers : Covers i t ms) : sourceText ms = t := by
  rw [sourceText, covers.pieces, textOf_pieces]

theorem Covers.eq_nil (covers : Covers i [] ms) : ms = [] := by
  have none := covers.pieces
  rw [SheetFormula.pieces] at none
  exact List.map_eq_nil_iff.1 none

/-- A character outside literals has its own mark. -/
theorem Covers.of_cons (covers : Covers i (c :: t) ms) (noQuote : c ≠ '"') :
    ∃ m rest, ms = m :: rest ∧ m.piece = .char c ∧ m.isLayout = Text.isLayout i c ∧
      Covers (Text.staysIndented i c) t rest := by
  obtain ⟨pieces, placed⟩ := covers
  rw [SheetFormula.pieces, if_neg noQuote] at pieces
  obtain ⟨m, rest, rfl, isChar, behind⟩ := List.map_eq_cons_iff.1 pieces
  obtain ⟨layout, placed⟩ := placed
  rw [isChar] at layout placed
  exact ⟨m, rest, rfl, isChar, layout, behind, placed⟩

/-- The marks of two texts are cut where these meet, unless two quotes meet there. -/
theorem Covers.of_append (covers : Covers i (s ++ t) ms) (closed : s.LiteralsClosed)
    (apart : s.getLast? ≠ some '"' ∨ t.head? ≠ some '"') :
    ∃ front behind, ms = front ++ behind ∧ Covers i s front ∧
      Covers (Text.indentedAfter i s) t behind := by
  obtain ⟨pieces, placed⟩ := covers
  rw [Text.pieces_append_of_closed closed t apart, List.map_eq_append_iff] at pieces
  obtain ⟨front, behind, rfl, isFront, isBehind⟩ := pieces
  obtain ⟨placedFront, placedBehind⟩ := placed_append.1 placed
  have text : sourceText front = s := by rw [sourceText, isFront, textOf_pieces]
  rw [text] at placedBehind
  exact ⟨front, behind, rfl, ⟨isFront, placedFront⟩, isBehind, placedBehind⟩

/-- A text without quotes is cut off whatever follows. -/
theorem Covers.of_append_plain (covers : Covers i (s ++ t) ms) (noQuote : '"' ∉ s) :
    ∃ front behind, ms = front ++ behind ∧ Covers i s front ∧
      Covers (Text.indentedAfter i s) t behind := by
  induction s generalizing i ms with
  | nil =>
    refine ⟨[], ms, rfl, ⟨?_, trivial⟩, covers⟩
    rw [SheetFormula.pieces]
    rfl
  | cons c s ih =>
    rw [List.mem_cons, not_or] at noQuote
    obtain ⟨m, rest, rfl, isChar, layout, more⟩ := covers.of_cons (Ne.symm noQuote.1)
    obtain ⟨front, behind, rfl, isFront, isBehind⟩ := ih more noQuote.2
    refine ⟨m :: front, behind, rfl, ⟨?_, ?_, ?_⟩, isBehind⟩
    · rw [List.map_cons, isChar, isFront.pieces, SheetFormula.pieces,
        if_neg (Ne.symm noQuote.1)]
    · rw [isChar]
      exact layout
    · rw [isChar]
      exact isFront.placed

/-- What begins with neither a blank nor a connector has the same marks inside a line. -/
theorem Covers.inLine (covers : Covers i t ms)
    (begins : ∀ c, t.head? = some c → Text.isBlank c = false ∧ Text.isConnector c = false) :
    Covers false t ms := by
  obtain ⟨pieces, placed⟩ := covers
  refine ⟨pieces, ?_⟩
  cases ms with
  | nil => trivial
  | cons m ms =>
    obtain ⟨layout, placed⟩ := placed
    have whole : t = m.piece.text ++ sourceText ms := by
      rw [← textOf_pieces t, ← pieces, ← sourceText, sourceText_cons]
    have isPiece : m.piece ∈ SheetFormula.pieces t := pieces ▸ List.mem_cons_self
    obtain ⟨c, more, text⟩ := List.exists_cons_of_ne_nil (text_ne_nil_of_mem_pieces isPiece)
    obtain ⟨noBlank, noConnector⟩ := begins c (by rw [whole, text]; rfl)
    have outside : ∀ j, Text.staysIndented j c = false := fun j =>
      Text.staysIndented_eq_false noBlank fun _ => noConnector
    have noLayout : ∀ j, m.piece.satisfies (Text.isLayout j) = false := by
      intro j
      cases isPiece : m.piece with
      | literal => rfl
      | char d =>
        rw [isPiece] at text
        obtain ⟨rfl, -⟩ := List.cons.inj text
        simp [Piece.satisfies, Piece.char?, Text.isLayout, noBlank, noConnector]
    rw [text, Text.indentedAfter_cons, outside] at placed
    refine ⟨by rw [layout, noLayout, noLayout], ?_⟩
    rw [text, Text.indentedAfter_cons, outside]
    exact placed

/-! ## Layout -/

/-- The marks of blanks, and behind a line break those of connectors, are layout. -/
theorem Covers.layout (covers : Covers i t ms)
    (margin : ∀ c ∈ t, Text.isBlank c = true ∨ i = true ∧ Text.isConnector c = true) :
    ∀ m ∈ ms, m.isLayout = true := by
  induction t generalizing i ms with
  | nil =>
    rw [covers.eq_nil]
    exact fun m met => absurd met List.not_mem_nil
  | cons c t ih =>
    obtain ⟨first, others⟩ := List.forall_mem_cons.1 margin
    have noQuote : c ≠ '"' :=
      first.elim Text.ne_quote_of_isBlank fun inside => Text.ne_quote_of_isConnector inside.2
    obtain ⟨m, rest, rfl, -, layout, more⟩ := covers.of_cons noQuote
    refine List.forall_mem_cons.2 ⟨?_, ih more fun d met => (others d met).imp_right ?_⟩
    · rw [layout, Text.isLayout]
      rcases first with blank | ⟨indented, connector⟩
      · rw [blank, Bool.true_or]
      · rw [indented, connector, Bool.and_true, Bool.or_true]
    · rintro ⟨indented, connector⟩
      refine ⟨?_, connector⟩
      rcases first with blank | inside
      · simp [Text.staysIndented, indented, blank]
      · simp [Text.staysIndented, indented, inside.2]

/-- Where no connector stands in an indentation, only blanks are layout. -/
theorem Covers.written (covers : Covers i t ms) (steady : Text.Steady false i t) :
    Written t ms := by
  refine ⟨covers.pieces, ?_⟩
  obtain ⟨pieces, placed⟩ := covers
  revert steady pieces placed
  fun_induction SheetFormula.pieces t generalizing i ms with
  | case1 =>
    intro _ pieces _
    rw [List.map_eq_nil_iff.1 pieces]
    exact fun m met => absurd met List.not_mem_nil
  | case2 t ih =>
    intro steady pieces placed
    obtain ⟨m, rest, rfl, isLiteral, behind⟩ := List.map_eq_cons_iff.1 pieces
    obtain ⟨layout, placed⟩ := placed
    rw [isLiteral] at layout placed
    refine List.forall_mem_cons.2 ⟨by rw [layout, isLiteral]; rfl, ih ?_ behind placed⟩
    have inside : Text.Steady false i
        ('"' :: (Text.literalTail t).text ++ (Text.literalTail t).rest) := by
      rwa [List.cons_append, Text.literalTail_whole]
    have side := (Text.essenceFrom_literalTail t false).2
    cases closed : (Text.literalTail t).closed with
    | true =>
      rw [closed] at side
      have outside : Text.Steady (Text.quotedAfter true (Text.literalTail t).text) _ _ :=
        (Text.steady_append.1 inside).2
      rwa [side] at outside
    | false =>
      rw [Text.rest_literalTail_of_unclosed closed]
      trivial
  | case3 c t noQuote ih =>
    intro steady pieces placed
    obtain ⟨m, rest, rfl, isChar, behind⟩ := List.map_eq_cons_iff.1 pieces
    obtain ⟨layout, placed⟩ := placed
    rw [isChar] at layout placed
    obtain ⟨first, steady⟩ := steady
    rw [Text.quotedBehind_other noQuote] at steady
    refine List.forall_mem_cons.2 ⟨?_, ih steady behind placed⟩
    rw [layout, isChar]
    show Text.isLayout i c = Text.isBlank c
    cases i with
    | false => simp [Text.isLayout]
    | true => simp [Text.isLayout, first rfl rfl]

theorem Covers.written_of_plain (covers : Covers i t ms)
    (plain : ∀ c ∈ t, c ≠ '"' ∧ Text.isConnector c = false) : Written t ms :=
  covers.written (Text.noConnector_of_forall (fun c met => (plain c met).1)
    fun c met => (plain c met).2).steady

end Mark

end SheetFormula
