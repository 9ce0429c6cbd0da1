import SheetFormula.Proofs.Format.Literals

/-!
# Formulas without line breaks

The leaves of an accepted formula without line breaks are tokens of closed literals and of plain
characters (`Formula.row_unbroken`), and spaces around their operators change nothing about that
(`Text.LineToken.plain_leaf`).

## Main definitions

* `Piece.Plain` — pieces that are no parenthesis and hold no line break
* `Text.LineToken` — the text of a leaf
-/

namespace SheetFormula

open Piece (Proper Respaced)

/-- A piece that is no parenthesis and holds no line break. -/
structure Piece.Plain (p : Piece) : Prop where
  noParenthesis : p.satisfies Text.isParenthesis = false
  noLineBreak : '\n' ∉ p.text

theorem Piece.Plain.ne {p : Piece} (plain : p.Plain) :
    p ≠ .char '\n' ∧ p ≠ .char '(' ∧ p ≠ .char ')' := by
  obtain ⟨noParenthesis, noLineBreak⟩ := plain
  refine ⟨?_, ?_, ?_⟩ <;> rintro rfl
  · exact noLineBreak List.mem_cons_self
  · cases noParenthesis
  · cases noParenthesis

/-- A token with closed literals only, on one line. -/
structure Text.LineToken (t : Text) : Prop extends Text.IsToken t where
  closed : t.LiteralsClosed
  noLineBreak : '\n' ∉ t

/-! ## Leaves -/

/-- With other blanks, pieces are what they were, and spaces. -/
theorem Piece.Respaced.mem {ps qs : List Piece} (respaced : Respaced ps qs) {p : Piece}
    (met : p ∈ qs) : p ∈ ps ∨ p = .char ' ' := by
  induction respaced with
  | nil => cases met
  | keep q _ ih =>
    rcases List.mem_cons.1 met with rfl | met
    · exact .inl List.mem_cons_self
    · exact (ih met).imp_left (List.mem_cons_of_mem q)
  | drop _ _ ih => exact (ih met).imp_left (List.mem_cons_of_mem _)
  | space _ ih =>
    rcases List.mem_cons.1 met with rfl | met
    · exact .inr rfl
    · exact ih met

namespace Text

variable {t : Text}

theorem LineToken.plain_pieces (token : t.LineToken) : ∀ p ∈ SheetFormula.pieces t, p.Plain := by
  intro p met
  refine ⟨token.noParenthesis p met, fun lineBreak => token.noLineBreak ?_⟩
  rw [← textOf_pieces t]
  exact List.mem_flatMap.2 ⟨p, met, lineBreak⟩

/-- Between spaces too, a token has plain pieces. -/
theorem LineToken.plain_leaf (token : t.LineToken) (style : Style) :
    ∀ p ∈ SheetFormula.pieces (style.leaf t), p.Plain := by
  unfold Style.leaf
  split
  · have proper := proper_spacedPieces (Piece.proper_pieces token.closed)
    rw [Text.spaced, proper.pieces_textOf]
    intro p met
    rcases (respaced_spacedPieces (quoted_pieces t)).mem met with met | rfl
    · exact token.plain_pieces p met
    · exact ⟨rfl, by decide⟩
  · exact token.plain_pieces

theorem LineToken.proper_leaf (token : t.LineToken) (style : Style) :
    Proper (SheetFormula.pieces (style.leaf t)) := by
  have leaf : (style.leaf t).Holds t.literals := holds_leaf ⟨token.closed, rfl⟩
  exact Piece.proper_pieces leaf.closed

end Text

/-! ## Reading -/

namespace Mark

/-- Two invariants hold together. -/
theorem RowInvariant.and {K L : Text → List Mark → Prop} {P Q : Text → Prop}
    (first : RowInvariant K P) (second : RowInvariant L Q) :
    RowInvariant (fun pending ms => K pending ms ∧ L pending ms) fun t => P t ∧ Q t where
  literal holds isLiteral := ⟨first.literal holds.1 isLiteral, second.literal holds.2 isLiteral⟩
  connector holds isChar layout connector :=
    ⟨first.connector holds.1 isChar layout connector,
      second.connector holds.2 isChar layout connector⟩
  char holds isChar noParenthesis noConnector joins :=
    ⟨first.char holds.1 isChar noParenthesis noConnector joins,
      second.char holds.2 isChar noParenthesis noConnector joins⟩
  fresh holds within := ⟨first.fresh holds.1 within, second.fresh holds.2 within⟩
  trimmed holds := ⟨first.trimmed holds.1, second.trimmed holds.2⟩
  name holds known := ⟨first.name holds.1 known, second.name holds.2 known⟩
  token holds := ⟨first.token holds.1, second.token holds.2⟩

/-- A pending token and the marks behind it, with closed literals only, on one line. -/
structure Unbroken (pending : Text) (ms : List Mark) : Prop where
  proper : Proper (joined pending ms)
  noLineBreak : '\n' ∉ textOf (joined pending ms)

variable {pending : Text} {mark : Mark} {ms ns rest : List Mark}

/-- A mark may join the token as it stands. -/
theorem Unbroken.join (unbroken : Unbroken pending (mark :: rest)) :
    Unbroken (pending ++ mark.piece.text) rest := by
  have cut := joined_append unbroken.proper
  exact ⟨cut ▸ unbroken.proper, cut ▸ unbroken.noLineBreak⟩

theorem textOf_joined : textOf (joined pending ms) = pending ++ sourceText ms := by
  rw [joined, textOf_append, textOf_pieces, sourceText]

theorem Unbroken.space {c : Char} (unbroken : Unbroken pending (mark :: rest))
    (isChar : mark.piece = .char c) : Unbroken (pending ++ [' ']) rest := by
  refine ⟨(joined_space unbroken.proper isChar).1, fun met => unbroken.noLineBreak ?_⟩
  rw [textOf_joined] at met ⊢
  rw [sourceText_cons]
  simp only [List.mem_append, List.mem_singleton] at met ⊢
  rcases met with (met | met) | met
  · exact .inl met
  · cases met
  · exact .inr (.inr met)

theorem Unbroken.fresh (unbroken : Unbroken pending ms) (within : ns <:+: ms) :
    Unbroken [] ns := by
  refine ⟨proper_fresh unbroken.proper within, fun met => unbroken.noLineBreak ?_⟩
  rw [joined_nil] at met
  obtain ⟨p, isPiece, lineBreak⟩ := List.mem_flatMap.1 met
  have whole : p ∈ joined pending ms :=
    List.mem_append_right _ ((within.map piece).subset isPiece)
  exact List.mem_flatMap.2 ⟨p, whole, lineBreak⟩

theorem Unbroken.name (unbroken : Unbroken pending ms) :
    Unbroken (Text.cutBeforeName pending).1 [] := by
  have front := (holds_token unbroken.proper).cutBeforeName
  have noMarks : joined (Text.cutBeforeName pending).1 [] = pieces (Text.cutBeforeName pending).1 :=
    List.append_nil _
  refine ⟨noMarks ▸ Piece.proper_pieces front.closed, fun met => unbroken.noLineBreak ?_⟩
  rw [noMarks, textOf_pieces] at met
  rw [textOf_joined, ← dropEndWhile_append_takeEndWhile Text.isNameChar pending]
  exact List.mem_append_left _ (List.mem_append_left _ met)

theorem Unbroken.token (unbroken : Unbroken pending ms) :
    (Text.trim pending).LiteralsClosed ∧ '\n' ∉ Text.trim pending := by
  refine ⟨(holds_token unbroken.proper).trim.closed, fun met => unbroken.noLineBreak ?_⟩
  obtain ⟨lead, trail, whole, -, -⟩ := trimEnds_split Text.isBlank pending
  rw [textOf_joined, whole]
  exact List.mem_append_left _ (List.mem_append_left _ (List.mem_append_right _ met))

theorem rowInvariant_unbroken : RowInvariant Unbroken fun t => t.LiteralsClosed ∧ '\n' ∉ t where
  literal unbroken isLiteral := by
    have joins := unbroken.join
    rwa [isLiteral] at joins
  connector unbroken isChar _ _ := unbroken.space isChar
  char unbroken isChar _ _ _ := by
    have joins := unbroken.join
    rwa [isChar] at joins
  fresh := Unbroken.fresh
  trimmed unbroken :=
    unbroken.fresh (trimmed_isInfix (closed_of_proper unbroken.proper))
  name unbroken _ := unbroken.name
  token := Unbroken.token

theorem rowInvariant_lineToken :
    RowInvariant (fun pending ms => Gathers pending ms ∧ Unbroken pending ms) Text.LineToken :=
  { rowInvariant_gathers.and rowInvariant_unbroken with
    token := fun holds => ⟨rowInvariant_gathers.token holds.1, holds.2.token.1, holds.2.token.2⟩ }

end Mark

open Mark Expression in
/-- The parts of an accepted formula without line breaks stand in a row of such tokens, and there
are some unless it is empty. -/
theorem Formula.row_unbroken {t : Text} {tree : Expression}
    (accepted : (ofText t).tree? = .ok tree) (noLineBreak : '\n' ∉ (ofText t).body) : ∃ parts,
      tree = .plain (ofText t).body parts ∧ Row Text.LineToken parts ∧
        (parts = [] → (ofText t).body = []) := by
  refine row_of_accepted rowInvariant_lineToken accepted fun closed =>
    ⟨gathers_marks _, proper_marks closed, ?_⟩
  rwa [joined_nil, map_piece_marks, textOf_pieces]

end SheetFormula
