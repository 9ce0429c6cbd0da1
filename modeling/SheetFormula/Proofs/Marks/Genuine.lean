import SheetFormula.Formula.Bracket
import SheetFormula.Formula.Operator
import SheetFormula.Proofs.Text.Ends
import SheetFormula.Proofs.Text.Pieces

/-!
# Genuine marks

Lists of marks are built freely, but those of a text keep some rules: only blanks and connectors
are layout, a literal begins with its quote, and no quote stands alone. The cuts of the readers
keep these rules (`genuine_marks`, `Genuine.trimmed`).

## Main definitions

* `Mark.Genuine` — the rules for one mark
* `Mark.AllGenuine` — the rules for all marks of a list
-/

namespace SheetFormula

namespace Mark

/-- What holds of every mark of a text. -/
structure Genuine (m : Mark) : Prop where
  /-- Layout is a blank or a connector. -/
  of_layout : m.isLayout = true →
    ∃ c, m.piece = .char c ∧ (Text.isBlank c = true ∨ Text.isConnector c = true)
  /-- Blanks are layout. -/
  layout_of_blank : ∀ c, m.piece = .char c → Text.isBlank c = true → m.isLayout = true
  /-- A literal begins with a quote. -/
  quote_of_literal : ∀ text closed, m.piece = .literal text closed → text.head? = some '"'
  /-- Outside literals there is no quote. -/
  ne_quote : m.piece ≠ .char '"'

/-- All marks of the list are genuine. -/
def AllGenuine (ms : List Mark) : Prop :=
  ∀ m ∈ ms, m.Genuine

theorem AllGenuine.head {m : Mark} {ms : List Mark} (genuine : AllGenuine (m :: ms)) :
    m.Genuine :=
  genuine m List.mem_cons_self

theorem AllGenuine.tail {m : Mark} {ms : List Mark} (genuine : AllGenuine (m :: ms)) :
    AllGenuine ms :=
  fun other met => genuine other (List.mem_cons_of_mem _ met)

theorem AllGenuine.of_subset {ms ns : List Mark} (genuine : AllGenuine ms) (subset : ns ⊆ ms) :
    AllGenuine ns :=
  fun m met => genuine m (subset met)

theorem allGenuine_append {ms ns : List Mark} :
    AllGenuine (ms ++ ns) ↔ AllGenuine ms ∧ AllGenuine ns :=
  List.forall_mem_append

/-! ## Marks of a text -/

@[simp] theorem map_piece_place (ps : List Piece) (position : Nat) (indented : Bool) :
    (place position indented ps).map piece = ps := by
  induction ps generalizing position indented with
  | nil => rfl
  | cons p ps ih => rw [place, List.map_cons, ih]

@[simp] theorem map_piece_marks (t : Text) : (marks t).map piece = pieces t :=
  map_piece_place _ _ _

theorem genuine_char {c : Char} (noQuote : c ≠ '"') (position : Nat) (indented : Bool) :
    Genuine ⟨position, (Piece.char c).satisfies (Text.isLayout indented), .char c⟩ where
  of_layout layout := by
    refine ⟨c, rfl, ?_⟩
    have layout : Text.isLayout indented c = true := layout
    rw [Text.isLayout, Bool.or_eq_true, Bool.and_eq_true] at layout
    exact layout.imp_right And.right
  layout_of_blank d isChar blank := by
    cases isChar
    change Text.isLayout indented c = true
    rw [Text.isLayout, blank, Bool.true_or]
  quote_of_literal text closed isLiteral := by cases isLiteral
  ne_quote isQuote := noQuote (Piece.char.inj isQuote)

theorem genuine_literal (text : Text) (closed : Bool) (position : Nat) (p : Char → Bool) :
    Genuine ⟨position, (Piece.literal ('"' :: text) closed).satisfies p,
      .literal ('"' :: text) closed⟩ where
  of_layout layout := by cases layout
  layout_of_blank c isChar := by cases isChar
  quote_of_literal other closed isLiteral := by cases isLiteral; rfl
  ne_quote isQuote := by cases isQuote

theorem allGenuine_place (t : Text) (position : Nat) (indented : Bool) :
    AllGenuine (place position indented (pieces t)) := by
  fun_induction pieces t generalizing position indented with
  | case1 => exact fun m met => absurd met List.not_mem_nil
  | case2 t ih =>
    intro m met
    rw [place, List.mem_cons] at met
    rcases met with rfl | met
    · exact genuine_literal _ _ _ _
    · exact ih _ _ m met
  | case3 c t noQuote ih =>
    intro m met
    rw [place, List.mem_cons] at met
    rcases met with rfl | met
    · exact genuine_char noQuote _ _
    · exact ih _ _ m met

theorem allGenuine_marks (t : Text) : AllGenuine (marks t) :=
  allGenuine_place t 0 false

/-! ## Layout and parentheses -/

theorem char?_char {m : Mark} {c : Char} (isChar : m.piece = .char c) : m.char? = some c :=
  congrArg Piece.char? isChar

theorem char?_literal {m : Mark} {text : Text} {closed : Bool}
    (isLiteral : m.piece = .literal text closed) : m.char? = none :=
  congrArg Piece.char? isLiteral

theorem piece_of_char? {m : Mark} {c : Char} (isChar : m.char? = some c) : m.piece = .char c := by
  cases isPiece : m.piece with
  | literal => rw [char?, isPiece] at isChar; cases isChar
  | char d =>
    rw [char?, isPiece] at isChar
    rw [Option.some.inj isChar]

theorem Genuine.char?_of_layout {m : Mark} (genuine : m.Genuine) (layout : m.isLayout = true) :
    ∃ c, m.char? = some c ∧ (Text.isBlank c = true ∨ Text.isConnector c = true) := by
  obtain ⟨c, isChar, kind⟩ := genuine.of_layout layout
  exact ⟨c, char?_char isChar, kind⟩

/-- Layout is neither a parenthesis nor a separator. -/
theorem Genuine.char?_ne_of_layout {m : Mark} (genuine : m.Genuine) (layout : m.isLayout = true)
    {d : Char} (noBlank : Text.isBlank d = false) (noConnector : Text.isConnector d = false) :
    m.char? ≠ some d := by
  obtain ⟨c, isChar, kind⟩ := genuine.char?_of_layout layout
  rw [isChar]
  rintro ⟨⟩
  rcases kind with kind | kind
  · rw [noBlank] at kind
    cases kind
  · rw [noConnector] at kind
    cases kind

theorem Genuine.noLayout_char {m : Mark} {c : Char} (genuine : m.Genuine)
    (isChar : m.piece = .char c) (kinds : Text.isBlank c = false ∧ Text.isConnector c = false) :
    m.isLayout = false := by
  by_contra layout
  rw [Bool.not_eq_false] at layout
  exact genuine.char?_ne_of_layout layout kinds.1 kinds.2 (char?_char isChar)

theorem Genuine.isUnclosed_of_layout {m : Mark} (genuine : m.Genuine)
    (layout : m.isLayout = true) : m.isUnclosed = false := by
  obtain ⟨c, isChar, _⟩ := genuine.of_layout layout
  rw [isUnclosed, isChar]
  rfl

/-! ## Trimmed marks -/

@[simp] theorem position_trimUnclosed (m : Mark) : m.trimUnclosed.position = m.position := by
  unfold trimUnclosed
  split <;> rfl

@[simp] theorem isLayout_trimUnclosed (m : Mark) : m.trimUnclosed.isLayout = m.isLayout := by
  unfold trimUnclosed
  split <;> rfl

@[simp] theorem char?_trimUnclosed (m : Mark) : m.trimUnclosed.char? = m.char? := by
  unfold trimUnclosed
  split
  · next text unclosed => rw [char?, char?, unclosed]; rfl
  · rfl

@[simp] theorem isUnclosed_trimUnclosed (m : Mark) :
    m.trimUnclosed.isUnclosed = m.isUnclosed := by
  unfold trimUnclosed
  split
  · next text unclosed => rw [isUnclosed, isUnclosed, unclosed]; rfl
  · rfl

/-- The quote at the start of an unclosed literal is not trimmed. -/
theorem head?_trimLayoutEnd {t : Text} (head : t.head? = some '"') :
    (Text.trimLayoutEnd t).head? = some '"' := by
  obtain ⟨rest, rfl⟩ := List.head?_eq_some_iff.1 head
  have flags : Text.layoutFlags false ('"' :: rest) =
      [] ++ false :: Text.layoutFlags false rest := rfl
  have kept : (dropEndWhile id (Text.layoutFlags false ('"' :: rest))).length ≠ 0 := by
    rw [Ne, List.length_eq_zero_iff, flags]
    intro none
    have last := List.rdropWhile_eq_nil_iff.1 none false (by simp)
    cases last
  obtain ⟨n, positive⟩ := Nat.exists_eq_succ_of_ne_zero kept
  rw [Text.trimLayoutEnd, positive]
  rfl

theorem Genuine.trimUnclosed {m : Mark} (genuine : m.Genuine) : m.trimUnclosed.Genuine := by
  unfold Mark.trimUnclosed
  split
  · next text unclosed =>
    exact {
      of_layout := fun layout => by
        obtain ⟨c, isChar, _⟩ := genuine.of_layout layout
        rw [unclosed] at isChar
        cases isChar
      layout_of_blank := fun c isChar => by cases isChar
      quote_of_literal := fun other closed isLiteral => by
        cases isLiteral
        exact head?_trimLayoutEnd (genuine.quote_of_literal _ _ unclosed)
      ne_quote := fun isQuote => by cases isQuote }
  · exact genuine

theorem AllGenuine.trimmed {ms : List Mark} (genuine : AllGenuine ms) :
    AllGenuine (trimmed ms) := by
  intro m met
  rw [Mark.trimmed, List.mem_map] at met
  obtain ⟨n, met, rfl⟩ := met
  obtain ⟨lead, trail, whole, -, -⟩ := trimEnds_split isLayout ms
  have within : n ∈ ms := by
    rw [whole]
    simp [met]
  exact (genuine n within).trimUnclosed

/-! ## Operators at the start of marks -/

/-- Marks whose text begins with a text without quotes begin with its characters. -/
theorem map_piece_take {ms : List Mark} (genuine : AllGenuine ms) {lexeme : Text}
    (noQuote : '"' ∉ lexeme) (begins : lexeme <+: sourceText ms) :
    (ms.take lexeme.length).map piece = lexeme.map Piece.char := by
  have quoted : Piece.Quoted (ms.map piece) := by
    intro text closed met
    obtain ⟨m, met, isLiteral⟩ := List.mem_map.1 met
    exact (genuine m met).quote_of_literal text closed isLiteral
  rw [List.map_take]
  exact Piece.take_eq_of_prefix quoted noQuote begins

end Mark

end SheetFormula
