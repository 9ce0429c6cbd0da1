import SheetFormula.Proofs.Text.Essence

/-!
# The literals of a text

A text with closed literals can be put together from parts, as long as no two quotes come to stand
next to each other (`pieces_append`). Then it holds the literals of its parts, one after the other
(`Text.Holds.append`).

## Main definitions

* `Piece.Proper` — pieces that a text with closed literals is cut into
* `Text.literals` — the string literals of a text
* `Text.Holds` — a text whose literals are closed, and known
-/

namespace SheetFormula

/-- The text of a literal. -/
def Piece.literal? : Piece → Option Text
  | .char _ => none
  | .literal text _ => some text

/-- The literals among pieces. -/
def Piece.literals (ps : List Piece) : List Text :=
  ps.filterMap literal?

/-- The string literals of a text with their quotes, in order. -/
def Text.literals (t : Text) : List Text :=
  Piece.literals (pieces t)

/-- A text with closed literals only, namely these. -/
structure Text.Holds (t : Text) (ls : List Text) : Prop where
  closed : t.LiteralsClosed
  literals : t.literals = ls

/-- Characters and closed literals, no two literals next to each other. -/
structure Piece.Proper (ps : List Piece) : Prop where
  whole : ∀ p ∈ ps, Whole p
  apart : ps.IsChain Apart

namespace Piece

variable {p : Piece} {ps qs : List Piece}

@[simp] theorem literals_nil : literals [] = [] := rfl

@[simp] theorem literals_append : literals (ps ++ qs) = literals ps ++ literals qs :=
  List.filterMap_append

theorem literals_cons_char {c : Char} : literals (char c :: ps) = literals ps := rfl

theorem literals_chars (t : Text) : literals (t.map char) = [] := by
  induction t with
  | nil => rfl
  | cons c t ih => exact ih

/-- Blanks are no literals. -/
theorem literals_solid (ps : List Piece) : literals (solid ps) = literals ps := by
  induction ps with
  | nil => rfl
  | cons p ps ih =>
    cases p with
    | char c =>
      rw [solid, List.filter_cons]
      split <;> exact ih
    | literal text closed => exact congrArg (text :: ·) ih

theorem Whole.isUnclosed (whole : p.Whole) : p.isUnclosed = false := by
  cases p with
  | char c => rfl
  | literal text closed =>
    rw [Piece.isUnclosed, (whole.literal text closed rfl).1]
    rfl

/-- The text of a whole literal begins and ends with a quote. -/
theorem Whole.quotes (whole : p.Whole) (noChar : p.char? = none) :
    p.text.head? = some '"' ∧ p.text.getLast? = some '"' := by
  cases p with
  | char c => cases noChar
  | literal text closed =>
    obtain ⟨-, tail, rfl, ends⟩ := whole.literal text closed rfl
    have last := Text.getLast?_literalTail (t := tail) (by rw [ends])
    rw [ends] at last
    refine ⟨rfl, ?_⟩
    rw [Piece.text, List.getLast?_cons, last]
    rfl

/-! ## Proper pieces -/

theorem proper_pieces {t : Text} (closed : t.LiteralsClosed) : Proper (pieces t) :=
  ⟨(whole_pieces closed).1, (whole_pieces closed).2⟩

theorem Proper.pieces_textOf (proper : Proper ps) : pieces (textOf ps) = ps :=
  SheetFormula.pieces_textOf proper.whole proper.apart

theorem Proper.of_isInfix (proper : Proper ps) (within : qs <:+: ps) : Proper qs :=
  ⟨fun p met => proper.whole p (within.subset met), List.IsChain.infix proper.apart within⟩

theorem Proper.tail (proper : Proper (p :: ps)) : Proper ps :=
  proper.of_isInfix (List.suffix_cons p ps).isInfix

/-- Pieces may stand next to each other with a character on one side of their junction. -/
theorem Proper.append (front : Proper ps) (behind : Proper qs)
    (between : (∀ p ∈ ps.getLast?, p.char?.isSome = true) ∨
      ∀ q ∈ qs.head?, q.char?.isSome = true) : Proper (ps ++ qs) :=
  ⟨List.forall_mem_append.2 ⟨front.whole, behind.whole⟩,
    apart_append front.apart behind.apart between⟩

/-- Characters may stand in front of any pieces. -/
theorem Proper.append_chars (proper : Proper qs) (whole : ∀ p ∈ ps, Whole p)
    (chars : ∀ p ∈ ps, p.char?.isSome = true) : Proper (ps ++ qs) :=
  Proper.append ⟨whole, apart_of_chars chars⟩ proper
    (.inl fun p isLast => chars p (List.mem_of_getLast? isLast))

theorem Proper.cons_char {c : Char} (proper : Proper ps) (noQuote : c ≠ '"') :
    Proper (.char c :: ps) := by
  have whole : ∀ p ∈ [char c], Whole p := fun p met => List.mem_singleton.1 met ▸ whole_char noQuote
  exact proper.append_chars whole fun p met => List.mem_singleton.1 met ▸ rfl

/-- A piece goes in front of others that begin like the pieces behind it, or with a character. -/
theorem Proper.cons (proper : Proper (p :: ps)) (behind : Proper qs)
    (begins : ∀ q ∈ qs.head?, q.char?.isSome = true ∨ ps.head? = some q) : Proper (p :: qs) := by
  refine ⟨List.forall_mem_cons.2 ⟨proper.whole p List.mem_cons_self, behind.whole⟩,
    List.isChain_cons.2 ⟨fun q isNext => ?_, behind.apart⟩⟩
  rcases begins q isNext with isChar | same
  · exact .inr isChar
  · exact (List.isChain_cons.1 proper.apart).1 q same

end Piece

open Piece

namespace Text

variable {s t : Text} {ks ls : List Text}

theorem literalsClosed_iff : t.LiteralsClosed ↔ quotedAfter false t = false := by
  unfold LiteralsClosed
  fun_induction SheetFormula.pieces t with
  | case1 => exact ⟨fun _ => rfl, fun _ _ met => absurd met List.not_mem_nil⟩
  | case2 t ih =>
    have side := (essenceFrom_literalTail t false).2
    have whole := congrArg (quotedAfter true) (literalTail_whole t)
    rw [quotedAfter_append, side] at whole
    rw [List.forall_mem_cons, ih]
    show (!(literalTail t).closed) = false ∧ _ ↔ quotedAfter true t = false
    rw [← whole]
    cases closed : (literalTail t).closed with
    | true => exact and_iff_right rfl
    | false => rw [rest_literalTail_of_unclosed closed]; simp [quotedAfter]
  | case3 c t noQuote ih =>
    rw [List.forall_mem_cons, ih, quotedAfter_cons, quotedBehind_other noQuote]
    exact and_iff_right rfl

theorem literalsClosed_of_whole (whole : ∀ p ∈ SheetFormula.pieces t, p.Whole) :
    t.LiteralsClosed :=
  fun p met => (whole p met).isUnclosed

/-- Two texts are cut where they meet, unless two quotes meet there. -/
theorem pieces_append (left : s.LiteralsClosed) (right : t.LiteralsClosed)
    (apart : s.getLast? ≠ some '"' ∨ t.head? ≠ some '"') :
    SheetFormula.pieces (s ++ t) = SheetFormula.pieces s ++ SheetFormula.pieces t := by
  have between : (∀ p ∈ (SheetFormula.pieces s).getLast?, p.char?.isSome = true) ∨
      ∀ q ∈ (SheetFormula.pieces t).head?, q.char?.isSome = true := by
    refine apart.imp (fun noQuote p isLast => ?_) fun noQuote q isNext => ?_
    · by_contra noChar
      obtain ⟨front, whole⟩ := List.getLast?_eq_some_iff.1 isLast
      refine noQuote ?_
      have isWhole := (proper_pieces left).whole p (List.mem_of_getLast? isLast)
      have quotes := isWhole.quotes (by simpa using noChar)
      rw [← textOf_pieces s, whole, textOf_append, List.getLast?_append, textOf,
        List.flatMap_singleton, quotes.2]
      rfl
    · by_contra noChar
      obtain ⟨behind, whole⟩ := List.head?_eq_some_iff.1 isNext
      refine noQuote ?_
      have isWhole := (proper_pieces right).whole q (List.mem_of_head? isNext)
      have quotes := isWhole.quotes (by simpa using noChar)
      rw [← textOf_pieces t, whole, textOf, List.flatMap_cons, List.head?_append, quotes.1]
      rfl
  have cut := ((proper_pieces left).append (proper_pieces right) between).pieces_textOf
  rwa [textOf_append, textOf_pieces, textOf_pieces] at cut

theorem pieces_of_noQuote (noQuote : '"' ∉ t) : SheetFormula.pieces t = t.map char := by
  induction t with
  | nil => rw [SheetFormula.pieces]; rfl
  | cons c t ih =>
    rw [List.mem_cons, not_or] at noQuote
    rw [SheetFormula.pieces, if_neg (Ne.symm noQuote.1), ih noQuote.2, List.map_cons]

/-! ## Texts put together -/

theorem literalsClosed_of_noQuote (noQuote : '"' ∉ t) : t.LiteralsClosed :=
  literalsClosed_iff.2 (quotedAfter_eq fun _ met isQuote => noQuote (isQuote ▸ met))

/-- The pieces of a text with closed literals are the same between characters. -/
theorem pieces_frame {lead trail : Text} (closed : t.LiteralsClosed) (leadQuote : '"' ∉ lead)
    (trailQuote : '"' ∉ trail) : SheetFormula.pieces (lead ++ t ++ trail) =
      lead.map char ++ SheetFormula.pieces t ++ trail.map char := by
  have front := pieces_append (literalsClosed_of_noQuote leadQuote) closed
    (.inl fun isLast => leadQuote (List.mem_of_getLast? isLast))
  have frontClosed : (lead ++ t).LiteralsClosed := by
    rw [LiteralsClosed, front]
    exact List.forall_mem_append.2 ⟨literalsClosed_of_noQuote leadQuote, closed⟩
  rw [pieces_append frontClosed (literalsClosed_of_noQuote trailQuote)
    (.inr fun isFirst => trailQuote (List.mem_of_head? isFirst)), front,
    pieces_of_noQuote leadQuote, pieces_of_noQuote trailQuote]

theorem holds_of_noQuote (noQuote : '"' ∉ t) : t.Holds [] :=
  ⟨literalsClosed_of_noQuote noQuote, by
    rw [Text.literals, pieces_of_noQuote noQuote, literals_chars]⟩

theorem holds_textOf {ps : List Piece} (proper : Piece.Proper ps) :
    (textOf ps).Holds (Piece.literals ps) := by
  have cut := proper.pieces_textOf
  exact ⟨literalsClosed_of_whole (cut.symm ▸ proper.whole), by rw [Text.literals, cut]⟩

theorem Holds.append (left : s.Holds ks) (right : t.Holds ls)
    (apart : s.getLast? ≠ some '"' ∨ t.head? ≠ some '"') : (s ++ t).Holds (ks ++ ls) := by
  have cut := pieces_append left.closed right.closed apart
  refine ⟨?_, ?_⟩
  · rw [LiteralsClosed, cut]
    exact List.forall_mem_append.2 ⟨left.closed, right.closed⟩
  · rw [Text.literals, cut, Piece.literals_append, ← Text.literals, ← Text.literals,
      left.literals, right.literals]

theorem Holds.append_left (holds : t.Holds ls) (noQuote : '"' ∉ s) : (s ++ t).Holds ls :=
  (holds_of_noQuote noQuote).append holds
    (.inl fun isLast => noQuote (List.mem_of_getLast? isLast))

theorem Holds.append_right (holds : s.Holds ks) (noQuote : '"' ∉ t) : (s ++ t).Holds ks := by
  have whole := holds.append (holds_of_noQuote noQuote)
    (.inr fun isFirst => noQuote (List.mem_of_head? isFirst))
  rwa [List.append_nil] at whole

/-- A text keeps its literals without text around it that has none. -/
theorem Holds.inner {front behind : Text} (holds : (front ++ t ++ behind).Holds ls)
    (frontQuote : '"' ∉ front) (behindQuote : '"' ∉ behind) : t.Holds ls := by
  have noQuote : ∀ {u : Text}, '"' ∉ u → ∀ quoted, quotedAfter quoted u = quoted :=
    fun noQuote quoted => quotedAfter_eq fun c met isQuote => noQuote (isQuote ▸ met)
  have closed : t.LiteralsClosed := by
    have side := literalsClosed_iff.1 holds.closed
    rw [quotedAfter_append, quotedAfter_append, noQuote frontQuote, noQuote behindQuote] at side
    exact literalsClosed_iff.2 side
  have again : t.Holds t.literals := ⟨closed, rfl⟩
  have framed := (again.append_left frontQuote).append_right behindQuote
  exact ⟨closed, framed.literals.symm.trans holds.literals⟩

theorem Holds.trim (holds : t.Holds ls) : (trim t).Holds ls := by
  obtain ⟨lead, trail, whole, leading, trailing⟩ := trimEnds_split isBlank t
  rw [whole] at holds
  exact holds.inner (fun met => ne_quote_of_isBlank (leading _ met) rfl)
    fun met => ne_quote_of_isBlank (trailing _ met) rfl

/-- No literal ends in a name. -/
theorem Holds.cutBeforeName (holds : t.Holds ls) : (cutBeforeName t).1.Holds ls := by
  have whole : [] ++ (Text.cutBeforeName t).1 ++ (Text.cutBeforeName t).2 = t :=
    dropEndWhile_append_takeEndWhile isNameChar t
  rw [← whole] at holds
  refine holds.inner List.not_mem_nil fun met => ?_
  exact (isNameChar_spelling (all_takeEndWhile t _ met)).1 rfl

end Text

/-! ## Pieces between characters -/

namespace Piece

variable {p : Piece} {ps : List Piece} {t : Text}

theorem isSome_char?_of_mem (met : p ∈ t.map char) : p.char?.isSome = true := by
  obtain ⟨c, -, rfl⟩ := List.mem_map.1 met
  rfl

theorem proper_chars (noQuote : '"' ∉ t) : Proper (t.map char) :=
  Text.pieces_of_noQuote noQuote ▸ proper_pieces (Text.literalsClosed_of_noQuote noQuote)

/-- Characters around pieces keep them apart from others. -/
theorem Proper.frame {lead trail : Text} (proper : Proper ps) (leadQuote : '"' ∉ lead)
    (trailQuote : '"' ∉ trail) : Proper (lead.map char ++ (ps ++ trail.map char)) := by
  have behind : Proper (ps ++ trail.map char) :=
    proper.append (proper_chars trailQuote)
      (.inr fun _ isFirst => isSome_char?_of_mem (List.mem_of_head? isFirst))
  exact (proper_chars leadQuote).append behind
    (.inl fun _ isLast => isSome_char?_of_mem (List.mem_of_getLast? isLast))

end Piece

end SheetFormula
