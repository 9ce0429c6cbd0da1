import SheetFormula.Formula.Mark
import SheetFormula.Proofs.Text.Characters
import SheetFormula.Proofs.Text.Ends
import SheetFormula.Proofs.Text.Pieces
import Mathlib.Tactic.ByContra

/-!
# The essence of a text

What is left of a text when its layout, the case of its letters and the kind of its separators are
disregarded. One pass from left to right computes it (`Text.essence_eq`), so that the essence of a
text follows from that of its parts wherever no part ends inside a literal.

## Main definitions

* `Text.essence` — the essence of a text, told of its marks
* `Text.essenceFrom` — the pass from any place
* `Text.Yields` — a text that has an essence at the start of a line as well as inside one
* `Text.Tidy` — closed literals and no connectors outside them
-/

namespace SheetFormula

/-- The capital form of a character, where a semicolon counts as a comma. -/
def Text.essential (c : Char) : Text :=
  if c = ';' then [','] else capital c

/-- What a mark adds to the essence: nothing if it is layout, and a literal as it is. -/
def Mark.essence (m : Mark) : Text :=
  match m.piece with
  | .literal text _ => text
  | .char c => if m.isLayout then [] else Text.essential c

/-- The text without layout, in capitals and with commas; literals stay as they are. -/
def Text.essence (t : Text) : Text :=
  (marks t).flatMap Mark.essence

namespace Text

/-- What a character adds, given whether it stands in a literal and in an indentation. -/
def essentialAt (quoted indented : Bool) (c : Char) : Text :=
  if quoted then [c] else if isLayout indented c then [] else essential c

/-- Whether the text behind a character stands in a literal. The second quote of a pair puts the
first one right. -/
def quotedBehind (quoted : Bool) (c : Char) : Bool :=
  if c = '"' then !quoted else quoted

/-- Whether a text ends in a literal. -/
def quotedAfter (quoted : Bool) (t : Text) : Bool :=
  t.foldl quotedBehind quoted

/-- Whether a text ends in the indentation of a line. -/
def indentedAfter (indented : Bool) (t : Text) : Bool :=
  t.foldl staysIndented indented

/-- The essence of a text behind another one. -/
def essenceFrom (quoted indented : Bool) : Text → Text
  | [] => []
  | c :: t =>
    essentialAt quoted indented c ++
      essenceFrom (quotedBehind quoted c) (staysIndented indented c) t

variable {quoted indented : Bool} {c : Char} {s t r : Text}

@[simp] theorem quotedAfter_cons :
    quotedAfter quoted (c :: t) = quotedAfter (quotedBehind quoted c) t := rfl

@[simp] theorem quotedAfter_append :
    quotedAfter quoted (s ++ t) = quotedAfter (quotedAfter quoted s) t :=
  List.foldl_append

@[simp] theorem indentedAfter_append :
    indentedAfter indented (s ++ t) = indentedAfter (indentedAfter indented s) t :=
  List.foldl_append

theorem essenceFrom_append :
    essenceFrom quoted indented (s ++ t) =
      essenceFrom quoted indented s ++
        essenceFrom (quotedAfter quoted s) (indentedAfter indented s) t := by
  induction s generalizing quoted indented with
  | nil => rfl
  | cons c s ih =>
    rw [List.cons_append, essenceFrom, ih, essenceFrom, List.append_assoc]
    rfl

theorem quotedBehind_other (noQuote : c ≠ '"') : quotedBehind quoted c = quoted :=
  if_neg noQuote

/-- Where no quote is met, the side does not change. -/
theorem quotedAfter_eq (noQuote : ∀ c ∈ t, c ≠ '"') : quotedAfter quoted t = quoted := by
  induction t with
  | nil => rfl
  | cons c t ih =>
    rw [quotedAfter_cons, quotedBehind_other (noQuote c List.mem_cons_self)]
    exact ih fun d met => noQuote d (List.mem_cons_of_mem _ met)

/-- The pass leaves the rest of a literal as it is, and is outside again behind a closed one. -/
theorem essenceFrom_literalTail (t : Text) (indented : Bool) :
    essenceFrom true indented (literalTail t).text = (literalTail t).text ∧
      quotedAfter true (literalTail t).text = !(literalTail t).closed := by
  fun_induction literalTail t generalizing indented with
  | case1 => exact ⟨rfl, rfl⟩
  | case2 t ih =>
    obtain ⟨same, side⟩ := ih (staysIndented (staysIndented indented '"') '"')
    refine ⟨?_, side⟩
    -- between the two quotes the pass is outside, and a quote is its own essence
    have second : essentialAt (quotedBehind true '"') (staysIndented indented '"') '"' = ['"'] := by
      cases indented <;> decide
    rw [LiteralTail.after, List.cons_append, List.cons_append, List.nil_append, essenceFrom,
      essenceFrom, second]
    exact congrArg (['"', '"'] ++ ·) same
  | case3 => exact ⟨rfl, rfl⟩
  | case4 c t noQuote ih =>
    obtain ⟨same, side⟩ := ih (staysIndented indented c)
    refine ⟨?_, ?_⟩
    · rw [LiteralTail.after, List.singleton_append, essenceFrom, quotedBehind_other noQuote, same]
      rfl
    · rw [LiteralTail.after, List.singleton_append, quotedAfter_cons, quotedBehind_other noQuote,
        side]

theorem essentialAt_quote : essentialAt false indented '"' = ['"'] := by
  cases indented <;> decide

theorem essence_place (t : Text) (position : Nat) (indented : Bool) :
    (Mark.place position indented (pieces t)).flatMap Mark.essence =
      essenceFrom false indented t := by
  fun_induction pieces t generalizing position indented with
  | case1 => rfl
  | case2 t ih =>
    obtain ⟨same, side⟩ := essenceFrom_literalTail t (staysIndented indented '"')
    have behind : ∀ i, essenceFrom (!(literalTail t).closed) i (literalTail t).rest =
        essenceFrom false i (literalTail t).rest := by
      intro i
      cases closed : (literalTail t).closed with
      | true => rfl
      | false => rw [rest_literalTail_of_unclosed closed]; rfl
    have passed := calc essenceFrom true (staysIndented indented '"') t
      _ = essenceFrom true (staysIndented indented '"')
            ((literalTail t).text ++ (literalTail t).rest) := by rw [literalTail_whole]
      _ = (literalTail t).text ++ essenceFrom false
            (indentedAfter (staysIndented indented '"') (literalTail t).text)
            (literalTail t).rest := by rw [essenceFrom_append, same, side, behind]
    rw [Mark.place, List.flatMap_cons, ih, essenceFrom, essentialAt_quote]
    exact congrArg ('"' :: ·) passed.symm
  | case3 c t noQuote ih =>
    rw [Mark.place, List.flatMap_cons, ih, essenceFrom, quotedBehind_other noQuote]
    rfl

theorem essence_eq (t : Text) : t.essence = essenceFrom false false t :=
  essence_place t 0 false

/-- The characters of an operator are their own essence. -/
theorem essential_of_mem_lexeme {op : Operator} (met : c ∈ op.lexeme) : essential c = [c] := by
  obtain ⟨⟨-, -, -, noSemicolon⟩, -, -, capitals⟩ := Operator.lexeme_spelling met
  rw [essential, if_neg noSemicolon, capitals]

/-! ## Tidy texts -/

/-- No connector stands outside literals. -/
def NoConnector (quoted : Bool) : Text → Prop
  | [] => True
  | c :: t => (quoted = false → isConnector c = false) ∧ NoConnector (quotedBehind quoted c) t

/-- A text with closed literals and without connectors outside them. -/
structure Tidy (t : Text) : Prop where
  closed : quotedAfter false t = false
  noConnector : NoConnector false t

/-- A text that ends outside literals and has the same essence wherever it begins. -/
structure Yields (t r : Text) : Prop where
  closed : quotedAfter false t = false
  essence : ∀ indented, essenceFrom false indented t = r

theorem noConnector_append :
    NoConnector quoted (s ++ t) ↔
      NoConnector quoted s ∧ NoConnector (quotedAfter quoted s) t := by
  induction s generalizing quoted with
  | nil => exact (true_and _).symm.to_iff
  | cons c s ih => rw [List.cons_append, NoConnector, NoConnector, ih, and_assoc, quotedAfter_cons]

/-- Without connectors it does not matter whether the text begins in an indentation. -/
theorem NoConnector.essenceFrom_eq (free : NoConnector quoted t) (i j : Bool) :
    essenceFrom quoted i t = essenceFrom quoted j t := by
  induction t generalizing quoted i j with
  | nil => rfl
  | cons c t ih =>
    obtain ⟨first, rest⟩ := free
    have same : essentialAt quoted i c = essentialAt quoted j c := by
      cases quoted with
      | true => rfl
      | false => simp [essentialAt, isLayout, first rfl]
    rw [essenceFrom, essenceFrom, same, ih rest]

@[simp] theorem essence_nil : essence [] = [] := by
  rw [essence_eq]
  rfl

@[simp] theorem tidy_nil : Tidy [] := ⟨rfl, trivial⟩

theorem Tidy.yields (tidy : Tidy t) : Yields t t.essence :=
  ⟨tidy.closed, fun indented => by rw [essence_eq, tidy.noConnector.essenceFrom_eq]⟩

theorem tidy_append (tidy : Tidy s) : Tidy (s ++ t) ↔ Tidy t := by
  refine ⟨fun both => ⟨?_, ?_⟩, fun other => ⟨?_, ?_⟩⟩
  · have := both.closed
    rwa [quotedAfter_append, tidy.closed] at this
  · have := (noConnector_append.1 both.noConnector).2
    rwa [tidy.closed] at this
  · rw [quotedAfter_append, tidy.closed, other.closed]
  · exact noConnector_append.2 ⟨tidy.noConnector, by rw [tidy.closed]; exact other.noConnector⟩

theorem essence_append (left : Tidy s) (right : Tidy t) :
    (s ++ t).essence = s.essence ++ t.essence := by
  rw [essence_eq, essence_eq, essence_eq, essenceFrom_append, left.closed,
    right.noConnector.essenceFrom_eq]

theorem Yields.append {s t p r : Text} (left : Yields s p) (right : Yields t r) :
    Yields (s ++ t) (p ++ r) := by
  refine ⟨?_, fun indented => ?_⟩
  · rw [quotedAfter_append, left.closed, right.closed]
  · rw [essenceFrom_append, left.essence, left.closed, right.essence]

theorem Yields.congr {t r s : Text} (yields : Yields t r) (same : r = s) : Yields t s :=
  same ▸ yields

/-! ### Texts without quotes -/

theorem noConnector_of_forall (noQuote : ∀ c ∈ t, c ≠ '"')
    (noConnector : ∀ c ∈ t, isConnector c = false) : NoConnector false t := by
  induction t with
  | nil => trivial
  | cons c t ih =>
    refine ⟨fun _ => noConnector c List.mem_cons_self, ?_⟩
    rw [quotedBehind_other (noQuote c List.mem_cons_self)]
    exact ih (fun d met => noQuote d (List.mem_cons_of_mem _ met))
      fun d met => noConnector d (List.mem_cons_of_mem _ met)

theorem tidy_of_forall (noQuote : ∀ c ∈ t, c ≠ '"')
    (noConnector : ∀ c ∈ t, isConnector c = false) : Tidy t :=
  ⟨quotedAfter_eq noQuote, noConnector_of_forall noQuote noConnector⟩

/-- What stands before a text without quotes is tidy by itself. -/
theorem Tidy.left (tidy : Tidy (s ++ t)) (noQuote : ∀ c ∈ t, c ≠ '"') : Tidy s := by
  have closed := tidy.closed
  rw [quotedAfter_append, quotedAfter_eq noQuote] at closed
  exact ⟨closed, (noConnector_append.1 tidy.noConnector).1⟩

/-- What stands behind a text without quotes is tidy by itself. -/
theorem Tidy.right (tidy : Tidy (s ++ t)) (noQuote : ∀ c ∈ s, c ≠ '"') : Tidy t := by
  have front : Tidy s := by
    refine ⟨quotedAfter_eq noQuote, (noConnector_append.1 tidy.noConnector).1⟩
  exact (tidy_append front).1 tidy

/-- The layout that follows a line break has no essence. -/
theorem essenceFrom_layout (layout : ∀ c ∈ t, isBlank c = true ∨ isConnector c = true) :
    essenceFrom false true t = [] := by
  induction t with
  | nil => rfl
  | cons c t ih =>
    have first := layout c List.mem_cons_self
    have noQuote : c ≠ '"' := first.elim ne_quote_of_isBlank ne_quote_of_isConnector
    have nothing : essentialAt false true c = [] := by
      rcases first with blank | connector <;> simp [essentialAt, isLayout, *]
    have stays : staysIndented true c = true := by
      rcases first with blank | connector <;> simp [staysIndented, *]
    rw [essenceFrom, nothing, stays, quotedBehind_other noQuote]
    exact ih fun d met => layout d (List.mem_cons_of_mem _ met)

theorem yields_layout (layout : ∀ c ∈ t, isBlank c = true ∨ isConnector c = true) :
    Yields ('\n' :: t) [] := by
  refine ⟨?_, fun indented => ?_⟩
  · rw [quotedAfter_cons]
    exact quotedAfter_eq fun c met => (layout c met).elim ne_quote_of_isBlank
      ne_quote_of_isConnector
  · have nothing : essentialAt false indented '\n' = [] := by cases indented <;> decide
    have starts : staysIndented indented '\n' = true := by cases indented <;> decide
    rw [essenceFrom, nothing, starts]
    exact essenceFrom_layout layout

/-- A text of blanks has no essence. -/
theorem tidy_blanks (blanks : ∀ c ∈ t, isBlank c = true) : Tidy t ∧ t.essence = [] := by
  have tidy : Tidy t := tidy_of_forall (fun c met => ne_quote_of_isBlank (blanks c met))
    fun c met => isConnector_of_isBlank (blanks c met)
  refine ⟨tidy, ?_⟩
  rw [essence_eq, tidy.noConnector.essenceFrom_eq false true]
  exact essenceFrom_layout fun c met => .inl (blanks c met)

/-- A character outside literals that is no layout is its own essence. -/
theorem tidy_singleton (noQuote : c ≠ '"') (noConnector : isConnector c = false) :
    Tidy [c] ∧ essence [c] = if isBlank c then [] else essential c := by
  refine ⟨tidy_of_forall (by simpa using noQuote) (by simpa using noConnector), ?_⟩
  rw [essence_eq, essenceFrom, essenceFrom, List.append_nil]
  simp [essentialAt, isLayout]

/-- Trimming keeps the essence of a tidy text. -/
theorem Tidy.trim (tidy : Tidy t) : Tidy (trim t) ∧ essence (trim t) = essence t := by
  obtain ⟨lead, trail, whole, leading, trailing⟩ := trimEnds_split isBlank t
  have behind : Tidy (trimEnds isBlank t ++ trail) := by
    rw [whole, List.append_assoc] at tidy
    exact tidy.right fun c met => ne_quote_of_isBlank (leading c met)
  have middle : Tidy (trimEnds isBlank t) :=
    behind.left fun c met => ne_quote_of_isBlank (trailing c met)
  refine ⟨middle, ?_⟩
  conv => rhs; rw [whole]
  rw [List.append_assoc, essence_append (tidy_blanks leading).1 behind,
    essence_append middle (tidy_blanks trailing).1, (tidy_blanks leading).2,
    (tidy_blanks trailing).2, List.append_nil, List.nil_append, Text.trim]

/-- Blanks at the end have no essence. -/
theorem essence_dropEndWhile (closed : quotedAfter false t = false) :
    essence (dropEndWhile isBlank t) = essence t := by
  have whole := dropEndWhile_append_takeEndWhile isBlank t
  have blanks : ∀ c ∈ takeEndWhile isBlank t, isBlank c = true := all_takeEndWhile t
  rw [← whole, quotedAfter_append,
    quotedAfter_eq fun c met => ne_quote_of_isBlank (blanks c met)] at closed
  conv => rhs; rw [← whole]
  rw [essence_eq, essence_eq, essenceFrom_append, closed,
    (tidy_blanks blanks).1.noConnector.essenceFrom_eq _ false, ← essence_eq (takeEndWhile _ _),
    (tidy_blanks blanks).2, List.append_nil]

/-! ### The pieces of a tidy text -/

/-- No connector stands outside the literals of the text. -/
def ConnectorFree (t : Text) : Prop :=
  ∀ p ∈ pieces t, p.satisfies isConnector = false

theorem noConnector_literalTail (t : Text) : NoConnector true (literalTail t).text := by
  fun_induction literalTail t with
  | case1 => trivial
  | case2 t ih => exact ⟨by simp, by decide, ih⟩
  | case3 => exact ⟨by simp, trivial⟩
  | case4 c t noQuote ih =>
    refine ⟨by simp, ?_⟩
    rw [quotedBehind_other noQuote]
    exact ih

theorem tidy_literal (closed : (literalTail t).closed = true) :
    Tidy ('"' :: (literalTail t).text) ∧
      essence ('"' :: (literalTail t).text) = '"' :: (literalTail t).text := by
  obtain ⟨same, side⟩ := essenceFrom_literalTail t false
  refine ⟨⟨?_, by decide, noConnector_literalTail t⟩, ?_⟩
  · show quotedAfter true (literalTail t).text = false
    rw [side, closed]
    rfl
  · rw [essence_eq, essenceFrom, essentialAt_quote]
    exact congrArg ('"' :: ·) same

theorem Tidy.pieces (tidy : Tidy t) :
    ∀ p ∈ SheetFormula.pieces t, p.text.Tidy ∧ p.isUnclosed = false := by
  fun_induction SheetFormula.pieces t with
  | case1 => exact fun p met => absurd met List.not_mem_nil
  | case2 t ih =>
    have closed : (literalTail t).closed = true := by
      -- an unclosed literal is never left, but a tidy text ends outside of literals
      by_contra unclosed
      rw [Bool.not_eq_true] at unclosed
      have whole := literalTail_whole t
      rw [rest_literalTail_of_unclosed unclosed, List.append_nil] at whole
      have side := (essenceFrom_literalTail t false).2
      rw [whole, unclosed] at side
      exact Bool.noConfusion (tidy.closed.symm.trans side)
    have literal := (tidy_literal closed).1
    have cut : '"' :: t = ('"' :: (literalTail t).text) ++ (literalTail t).rest := by
      rw [List.cons_append, literalTail_whole]
    intro p met
    rcases List.mem_cons.1 met with rfl | met
    · refine ⟨literal, ?_⟩
      rw [closed]
      rfl
    · exact ih ((tidy_append literal).1 (cut ▸ tidy)) p met
  | case3 c t noQuote ih =>
    have single := tidy_singleton noQuote (tidy.noConnector.1 rfl)
    intro p met
    rcases List.mem_cons.1 met with rfl | met
    · exact ⟨single.1, rfl⟩
    · exact ih ((tidy_append single.1).1 tidy) p met

theorem tidy_blankPiece {p : Piece} (blank : p.satisfies isBlank = true) :
    p.text.Tidy ∧ p.text.essence = [] := by
  cases p with
  | char c =>
    refine tidy_blanks fun d met => ?_
    rw [List.mem_singleton.1 met]
    exact blank
  | literal => cases blank

/-- Blanks between tidy pieces have no essence. -/
theorem essence_textOf {ps : List Piece} (tidy : ∀ p ∈ Piece.solid ps, p.text.Tidy) :
    Tidy (textOf ps) ∧
      essence (textOf ps) = (Piece.solid ps).flatMap fun p => essence p.text := by
  induction ps with
  | nil => exact ⟨tidy_nil, essence_nil⟩
  | cons p ps ih =>
    rw [textOf_cons]
    rw [Piece.solid_cons] at tidy ⊢
    obtain ⟨first, later⟩ := List.forall_mem_append.1 tidy
    obtain ⟨restTidy, rest⟩ := ih later
    by_cases blank : p.satisfies isBlank = true
    · obtain ⟨pieceTidy, nothing⟩ := tidy_blankPiece blank
      have none : Piece.solid [p] = [] := by simp [Piece.solid, blank]
      rw [none, List.nil_append, tidy_append pieceTidy, essence_append pieceTidy restTidy, nothing,
        rest]
      exact ⟨restTidy, rfl⟩
    · have kept : Piece.solid [p] = [p] := by simp [Piece.solid, blank]
      rw [kept] at first ⊢
      have pieceTidy := first p List.mem_cons_self
      rw [tidy_append pieceTidy, essence_append pieceTidy restTidy, rest, List.flatMap_append]
      exact ⟨restTidy, by simp⟩

end Text

namespace Mark

/-- A mark whose text is tidy and has the essence of the mark. -/
structure Tidy (m : Mark) : Prop where
  closed : m.isUnclosed = false
  text : m.piece.text.Tidy
  essence : m.piece.text.essence = m.essence

theorem tidy_place {t : Text} (closed : t.LiteralsClosed) (free : t.ConnectorFree)
    (position : Nat) (indented : Bool) : ∀ m ∈ place position indented (pieces t), m.Tidy := by
  unfold Text.LiteralsClosed at closed
  unfold Text.ConnectorFree at free
  fun_induction pieces t generalizing position indented with
  | case1 => exact fun m met => absurd met List.not_mem_nil
  | case2 t ih =>
    intro m met
    rw [place, List.mem_cons] at met
    rcases met with rfl | met
    · have first := closed _ List.mem_cons_self
      have ends : (Text.literalTail t).closed = true := by simpa [Piece.isUnclosed] using first
      exact ⟨first, (Text.tidy_literal ends).1, (Text.tidy_literal ends).2⟩
    · exact ih (fun p within => closed p (List.mem_cons_of_mem _ within))
        (fun p within => free p (List.mem_cons_of_mem _ within)) _ _ m met
  | case3 c t noQuote ih =>
    intro m met
    rw [place, List.mem_cons] at met
    rcases met with rfl | met
    · have noConnector : Text.isConnector c = false := free _ List.mem_cons_self
      refine ⟨rfl, (Text.tidy_singleton noQuote noConnector).1, ?_⟩
      refine (Text.tidy_singleton noQuote noConnector).2.trans ?_
      simp [Mark.essence, Piece.satisfies, Piece.char?, Text.isLayout, noConnector]
    · exact ih (fun p within => closed p (List.mem_cons_of_mem _ within))
        (fun p within => free p (List.mem_cons_of_mem _ within)) _ _ m met

theorem tidy_sourceText {ms : List Mark} (tidy : ∀ m ∈ ms, m.Tidy) :
    (sourceText ms).Tidy ∧ (sourceText ms).essence = ms.flatMap Mark.essence := by
  induction ms with
  | nil => exact ⟨Text.tidy_nil, Text.essence_nil⟩
  | cons m ms ih =>
    have first := tidy m List.mem_cons_self
    obtain ⟨rest, same⟩ := ih fun other met => tidy other (List.mem_cons_of_mem _ met)
    have cut : sourceText (m :: ms) = m.piece.text ++ sourceText ms := by
      rw [sourceText, List.map_cons, textOf, List.flatMap_cons]
      rfl
    rw [cut, Text.tidy_append first.text, Text.essence_append first.text rest, first.essence, same]
    exact ⟨rest, rfl⟩

end Mark

end SheetFormula
