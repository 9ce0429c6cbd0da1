import SheetFormula.Text.Literal
import SheetFormula.Text.Blank
import Mathlib.Data.List.Chain

/-!
# Pieces of a text

What the pieces of a text are like: none is empty, and a literal begins with a quote. So a text
without quotes that pieces begin with is there character by character (`Piece.take_eq_of_prefix`).
Closed literals end by themselves, and no two of them touch each other. So a stretch of pieces is
what its own text is cut into (`pieces_textOf`).

## Main definitions

* `Piece.Quoted` — pieces whose literals begin with a quote
* `Piece.solid` — pieces without the blanks among them
* `Piece.Whole`, `Piece.Apart` — a character or a closed literal, and neighbours of which one is a
  character
-/

namespace SheetFormula

theorem textOf_cons (p : Piece) (ps : List Piece) : textOf (p :: ps) = p.text ++ textOf ps :=
  List.flatMap_cons

@[simp] theorem textOf_append (ps qs : List Piece) : textOf (ps ++ qs) = textOf ps ++ textOf qs :=
  List.flatMap_append

@[simp] theorem textOf_chars (t : Text) : textOf (t.map .char) = t := by
  rw [textOf, List.flatMap_map]
  exact List.flatMap_singleton' t

namespace Piece

/-- Every literal begins with a quote. -/
def Quoted (ps : List Piece) : Prop :=
  ∀ text closed, literal text closed ∈ ps → text.head? = some '"'

/-- The pieces that are no blanks. -/
def solid (ps : List Piece) : List Piece :=
  ps.filter fun p => !p.satisfies Text.isBlank

variable {p : Piece} {ps qs : List Piece}

theorem Quoted.of_subset (quoted : Quoted ps) (subset : qs ⊆ ps) : Quoted qs :=
  fun text closed met => quoted text closed (subset met)

theorem Quoted.tail (quoted : Quoted (p :: ps)) : Quoted ps :=
  quoted.of_subset (List.subset_cons_self p ps)

@[simp] theorem solid_append : solid (ps ++ qs) = solid ps ++ solid qs :=
  List.filter_append ps qs

theorem solid_cons : solid (p :: ps) = solid [p] ++ solid ps := by
  rw [← solid_append, List.singleton_append]

/-- Pieces that begin with a text without quotes begin with its characters. -/
theorem take_eq_of_prefix (quoted : Quoted ps) {lexeme : Text} (noQuote : '"' ∉ lexeme)
    (begins : lexeme <+: textOf ps) : ps.take lexeme.length = lexeme.map char := by
  induction lexeme generalizing ps with
  | nil => rfl
  | cons c lexeme ih =>
    obtain ⟨others, whole⟩ := begins
    cases ps with
    | nil => cases whole
    | cons p ps =>
      rw [textOf, List.flatMap_cons] at whole
      cases p with
      | literal text closed =>
        obtain ⟨rest, rfl⟩ := List.head?_eq_some_iff.1 (quoted text closed List.mem_cons_self)
        have first : c = '"' := (List.cons.inj whole).1
        exact absurd (first ▸ List.mem_cons_self) noQuote
      | char d =>
        obtain ⟨rfl, rest⟩ := List.cons.inj whole
        have later := ih quoted.tail (fun met => noQuote (List.mem_cons_of_mem _ met))
          ⟨others, rest⟩
        rw [List.length_cons, List.take_succ_cons, List.map_cons, later]

end Piece

theorem quoted_pieces (t : Text) : Piece.Quoted (pieces t) := by
  fun_induction pieces t with
  | case1 => exact fun text closed met => absurd met List.not_mem_nil
  | case2 t ih =>
    intro text closed met
    rcases List.mem_cons.1 met with same | met
    · rw [(Piece.literal.inj same).1]
      rfl
    · exact ih text closed met
  | case3 c t _ ih =>
    intro text closed met
    rcases List.mem_cons.1 met with same | met
    · cases same
    · exact ih text closed met

theorem text_ne_nil_of_mem_pieces {t : Text} {p : Piece} (met : p ∈ pieces t) : p.text ≠ [] := by
  cases p with
  | char c => exact List.cons_ne_nil c []
  | literal text closed =>
    obtain ⟨rest, rfl⟩ := List.head?_eq_some_iff.1 (quoted_pieces t text closed met)
    exact List.cons_ne_nil _ rest

/-! ## Closed literals -/

namespace Text

variable {c : Char} {t r : Text}

theorem literalTail_other (noQuote : c ≠ '"') :
    literalTail (c :: t) = (literalTail t).after [c] := by
  rw [literalTail.eq_def]
  exact if_neg noQuote

theorem literalTail_quote (head : t.head? ≠ some '"') :
    literalTail ('"' :: t) = ⟨['"'], true, t⟩ := by
  rw [literalTail.eq_def]
  simp only [if_pos]
  split
  · exact absurd rfl head
  · rfl

theorem literalTail_quotes : literalTail ('"' :: '"' :: t) = (literalTail t).after ['"', '"'] := by
  rw [literalTail.eq_def]
  exact if_pos rfl

/-- What follows a closed literal begins with no quote, or that would belong to it. -/
theorem head?_rest_literalTail (closed : (literalTail t).closed = true) :
    (literalTail t).rest.head? ≠ some '"' := by
  fun_induction literalTail t with
  | case1 => cases closed
  | case2 t ih => exact ih closed
  | case3 t noQuote =>
    intro head
    obtain ⟨more, rfl⟩ := List.head?_eq_some_iff.1 head
    exact noQuote more rfl
  | case4 c t _ ih => exact ih closed

/-- A closed literal ends with a quote. -/
theorem getLast?_literalTail (closed : (literalTail t).closed = true) :
    (literalTail t).text.getLast? = some '"' := by
  fun_induction literalTail t with
  | case1 => cases closed
  | case2 t ih =>
    rw [LiteralTail.after, List.getLast?_append, ih closed]
    rfl
  | case3 => rfl
  | case4 c t _ ih =>
    rw [LiteralTail.after, List.getLast?_append, ih closed]
    rfl

/-- A closed literal is the same in front of any text that does not go on with a quote. -/
theorem literalTail_append (closed : (literalTail t).closed = true) (head : r.head? ≠ some '"') :
    literalTail ((literalTail t).text ++ r) = ⟨(literalTail t).text, true, r⟩ := by
  fun_induction literalTail t with
  | case1 => cases closed
  | case2 t ih =>
    rw [LiteralTail.after, List.append_assoc]
    exact literalTail_quotes.trans (congrArg (LiteralTail.after _) (ih closed))
  | case3 t _ => exact literalTail_quote head
  | case4 c t noQuote ih =>
    rw [LiteralTail.after, List.append_assoc]
    exact (literalTail_other noQuote).trans (congrArg (LiteralTail.after _) (ih closed))

end Text

namespace Piece

variable {ps qs : List Piece}

/-- A character outside literals, or a closed literal that stops at its end and not before. -/
structure Whole (p : Piece) : Prop where
  ne_quote : p ≠ char '"'
  literal : ∀ text closed, p = literal text closed →
    closed = true ∧ ∃ tail, text = '"' :: tail ∧ Text.literalTail tail = ⟨tail, true, []⟩

/-- One of two neighbours is no literal. -/
def Apart (p q : Piece) : Prop :=
  p.char?.isSome = true ∨ q.char?.isSome = true

/-- Characters lie apart from everything. -/
theorem apart_of_chars (chars : ∀ p ∈ ps, p.char?.isSome = true) : ps.IsChain Apart := by
  induction ps with
  | nil => exact .nil
  | cons p ps ih =>
    obtain ⟨first, behind⟩ := List.forall_mem_cons.1 chars
    exact List.isChain_cons.2 ⟨fun _ _ => .inl first, ih behind⟩

/-- Pieces lie apart if a character stands on one side of their junction. -/
theorem apart_append (front : ps.IsChain Apart) (behind : qs.IsChain Apart)
    (between : (∀ p ∈ ps.getLast?, p.char?.isSome = true) ∨
      ∀ q ∈ qs.head?, q.char?.isSome = true) :
    (ps ++ qs).IsChain Apart :=
  List.isChain_append.2 ⟨front, behind, fun p isLast q isNext =>
    between.imp (fun chars => chars p isLast) fun chars => chars q isNext⟩

theorem whole_char {c : Char} (noQuote : c ≠ '"') : Whole (char c) :=
  ⟨fun isQuote => noQuote (char.inj isQuote), fun _ _ isLiteral => nomatch isLiteral⟩

/-- Behind a whole literal, the text of pieces apart from it does not go on with a quote. -/
theorem head?_textOf {p : Piece} {ps : List Piece} (noChar : p.char? = none)
    (whole : ∀ q ∈ ps, Whole q) (apart : (p :: ps).IsChain Apart) :
    (textOf ps).head? ≠ some '"' := by
  cases ps with
  | nil => exact Option.some_ne_none _ ∘ Eq.symm
  | cons q ps =>
    have isChar := (List.isChain_cons_cons.1 apart).1.resolve_left (by simp [noChar])
    cases q with
    | char c =>
      intro head
      refine (whole _ List.mem_cons_self).ne_quote ?_
      exact congrArg char (Option.some.inj head)
    | literal text closed => cases isChar

end Piece

open Piece

/-- Whole pieces that lie apart are the pieces of their text. -/
theorem pieces_textOf {ps : List Piece} (whole : ∀ p ∈ ps, Whole p) (apart : ps.IsChain Apart) :
    pieces (textOf ps) = ps := by
  induction ps with
  | nil => rw [textOf, List.flatMap_nil, pieces]
  | cons p ps ih =>
    have behind : ∀ q ∈ ps, Whole q := fun q met => whole q (List.mem_cons_of_mem _ met)
    have later := ih behind apart.tail
    have first := whole p List.mem_cons_self
    rw [textOf_cons]
    cases p with
    | char c =>
      have noQuote : c ≠ '"' := fun isQuote => first.ne_quote (congrArg char isQuote)
      rw [text, List.singleton_append, pieces, if_neg noQuote, later]
    | literal text closed =>
      obtain ⟨rfl, tail, rfl, ends⟩ := first.literal text closed rfl
      have same := Text.literalTail_append (t := tail) (by rw [ends])
        (head?_textOf rfl behind apart)
      rw [ends] at same
      rw [Piece.text, List.cons_append, pieces, if_pos rfl, same, later]

/-- The pieces of a text with closed literals are whole and lie apart. -/
theorem whole_pieces {t : Text} (closed : t.LiteralsClosed) :
    (∀ p ∈ pieces t, Whole p) ∧ (pieces t).IsChain Apart := by
  unfold Text.LiteralsClosed at closed
  fun_induction pieces t with
  | case1 => exact ⟨fun p met => absurd met List.not_mem_nil, .nil⟩
  | case2 t ih =>
    obtain ⟨first, behind⟩ := List.forall_mem_cons.1 closed
    obtain ⟨whole, apart⟩ := ih behind
    have ends : (Text.literalTail t).closed = true := by simpa [isUnclosed] using first
    have same := Text.literalTail_append (r := []) ends (by simp)
    rw [List.append_nil] at same
    refine ⟨List.forall_mem_cons.2 ⟨⟨Piece.noConfusion, ?_⟩, whole⟩,
      List.isChain_cons.2 ⟨?_, apart⟩⟩
    · rintro text closed isLiteral
      obtain ⟨rfl, rfl⟩ := Piece.literal.inj isLiteral
      exact ⟨ends, _, rfl, same⟩
    · intro q isNext
      -- a literal behind the closing quote would go on with another quote
      right
      have noQuote := Text.head?_rest_literalTail ends
      revert isNext noQuote
      generalize (Text.literalTail t).rest = rest
      intro isNext noQuote
      cases rest with
      | nil => rw [pieces] at isNext; cases isNext
      | cons c rest =>
        have other : c ≠ '"' := fun isQuote => noQuote (congrArg some isQuote)
        rw [pieces, if_neg other] at isNext
        cases isNext
        rfl
  | case3 c t noQuote ih =>
    obtain ⟨-, behind⟩ := List.forall_mem_cons.1 closed
    obtain ⟨whole, apart⟩ := ih behind
    exact ⟨List.forall_mem_cons.2 ⟨whole_char noQuote, whole⟩,
      List.isChain_cons.2 ⟨fun _ _ => .inl rfl, apart⟩⟩

end SheetFormula
