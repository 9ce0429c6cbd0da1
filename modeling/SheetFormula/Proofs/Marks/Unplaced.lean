import SheetFormula.Proofs.Marks.Placed
import SheetFormula.Proofs.Text.Pieces

/-!
# Marks without their positions

The position of a mark only tells where a fault is. The cuts of the readers do not look at it
(`argumentParts_map_unplaced`, `trimmed_map_unplaced`), and consecutive marks of a text that begin
with no layout are the marks of their own text but for their positions (`unplaced_marks`).

## Main definitions

* `Mark.unplaced` — a mark moved to the start of a text
-/

namespace SheetFormula.Mark

/-- The mark at the start of a text. -/
def unplaced (m : Mark) : Mark :=
  { m with position := 0 }

variable {i : Bool} {m : Mark} {ms : List Mark} {separator : Separator}

@[simp] theorem piece_unplaced (m : Mark) : m.unplaced.piece = m.piece := rfl

@[simp] theorem isLayout_unplaced (m : Mark) : m.unplaced.isLayout = m.isLayout := rfl

@[simp] theorem char?_unplaced (m : Mark) : m.unplaced.char? = m.char? := rfl

@[simp] theorem sourceText_map_unplaced : sourceText (ms.map unplaced) = sourceText ms := by
  rw [sourceText, List.map_map]
  rfl

theorem Genuine.unplaced (genuine : m.Genuine) : m.unplaced.Genuine :=
  ⟨genuine.of_layout, genuine.layout_of_blank, genuine.quote_of_literal, genuine.ne_quote⟩

/-! ## Cuts -/

theorem cutAtSeparators_map_unplaced (depth : Nat) (ms : List Mark) :
    cutAtSeparators separator depth (ms.map unplaced) =
      (cutAtSeparators separator depth ms).map (List.map unplaced)
        (List.map (List.map unplaced)) := by
  induction ms generalizing depth with
  | nil => rfl
  | cons m ms ih =>
    have same : m.unplaced.depthAfter depth = m.depthAfter depth := rfl
    rw [List.map_cons, cutAtSeparators, cutAtSeparators, char?_unplaced, same, ih, ih]
    split <;> rfl

theorem argumentParts_map_unplaced (ms : List Mark) :
    argumentParts separator (ms.map unplaced) =
      (argumentParts separator ms).map (List.map unplaced) := by
  have layout : ∀ part : List Mark, (part.map unplaced).all isLayout = part.all isLayout :=
    fun part => List.all_map
  rw [argumentParts, argumentParts, cutAtSeparators_map_unplaced]
  rcases cutAtSeparators separator 0 ms with ⟨part, _ | ⟨other, parts⟩⟩
  · simp only [Prod.map, List.map_nil, layout]
    split <;> rfl
  · rfl

theorem trimmed_map_unplaced (ms : List Mark) :
    trimmed (ms.map unplaced) = (trimmed ms).map unplaced := by
  have literal : trimUnclosed ∘ unplaced = unplaced ∘ trimUnclosed := by
    funext m
    rw [Function.comp, Function.comp, trimUnclosed, trimUnclosed, piece_unplaced]
    split <;> rfl
  have ends : trimEnds isLayout (ms.map unplaced) = (trimEnds isLayout ms).map unplaced := by
    simp only [trimEnds, dropEndWhile, ← List.map_reverse, List.dropWhile_map]
    rfl
  rw [trimmed, trimmed, ends, List.map_map, List.map_map, literal]

/-! ## Marks of their own text -/

/-- Placed marks follow from their pieces. -/
theorem Placed.map_unplaced (placed : Placed i ms) (position : Nat) :
    (place position i (ms.map piece)).map unplaced = ms.map unplaced := by
  induction ms generalizing i position with
  | nil => rfl
  | cons m ms ih =>
    obtain ⟨layout, rest⟩ := placed
    rw [List.map_cons, place, List.map_cons, List.map_cons, ← layout]
    exact congrArg (m.unplaced :: ·) (ih rest _)

/-- Marks that begin with no layout may also stand at the start of a line. -/
theorem Placed.start {c : Char} (placed : Placed i (m :: ms)) (isChar : m.piece = .char c)
    (noBlank : Text.isBlank c = false) (noConnector : Text.isConnector c = false) :
    Placed false (m :: ms) := by
  obtain ⟨layout, rest⟩ := placed
  have stays : ∀ j, Text.staysIndented j c = false := fun j =>
    Text.staysIndented_eq_false noBlank fun _ => noConnector
  have here : ∀ j, Text.isLayout j c = false := fun j => by
    rw [Text.isLayout, noBlank, noConnector, Bool.and_false, Bool.or_false]
  rw [isChar] at layout rest
  refine ⟨?_, ?_⟩
  · rw [isChar]
    exact layout.trans ((here i).trans (here false).symm)
  · rw [isChar]
    have same : Text.indentedAfter i [c] = Text.indentedAfter false [c] :=
      (stays i).trans (stays false).symm
    exact same ▸ rest

/-- A stretch of the marks of a text is made of the marks of its own text, if it begins with no
layout. -/
theorem unplaced_marks {t : Text} {c : Char} (closed : t.LiteralsClosed)
    (within : m :: ms <:+: marks t) (isChar : m.piece = .char c)
    (noBlank : Text.isBlank c = false) (noConnector : Text.isConnector c = false) :
    (marks (sourceText (m :: ms))).map unplaced = (m :: ms).map unplaced := by
  obtain ⟨whole, apart⟩ := whole_pieces closed
  have piecesWithin : (m :: ms).map piece <:+: pieces t := map_piece_marks t ▸ within.map piece
  have piecesApart : ((m :: ms).map piece).IsChain Piece.Apart :=
    List.IsChain.infix apart piecesWithin
  have same : pieces (sourceText (m :: ms)) = (m :: ms).map piece :=
    pieces_textOf (fun p met => whole p (piecesWithin.subset met)) piecesApart
  obtain ⟨j, placed⟩ := (placed_place 0 false (pieces t)).of_isInfix within
  rw [marks, same]
  exact (placed.start isChar noBlank noConnector).map_unplaced 0

end SheetFormula.Mark
