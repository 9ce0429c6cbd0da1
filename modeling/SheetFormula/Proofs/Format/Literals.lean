import SheetFormula.Proofs.Format.Apart
import SheetFormula.Proofs.Format.Beautify
import SheetFormula.Proofs.Marks.Literals
import SheetFormula.Proofs.Reading.Bodies

/-!
# Literals of beautified formulas

A formula without unclosed literals keeps its literals, text for text and in order, however often
it is beautified (`holds_passes`). Each step of a reading hands the literals of its marks on to the
layout of the parts that it adds (`holds_read`), and no two literals come to touch each other,
since the layout of a part that is no leaf neither begins nor ends with a quote.

## Main definitions

* `Text.Fenced` — texts that may stand next to any literal
-/

namespace SheetFormula

open Piece (Proper)

/-! ## Fenced texts -/

/-- A text with these literals that neither begins nor ends with a quote. -/
structure Text.Fenced (t : Text) (ls : List Text) : Prop extends Text.Holds t ls where
  first : ∃ c, t.head? = some c ∧ c ≠ '"'
  last : t.getLast? ≠ some '"'

namespace Text

variable {t : Text} {ls : List Text}

/-- Behind a text without quotes, no quote begins where none did. -/
theorem head?_append_ne_quote {s : Text} (noQuote : '"' ∉ s) (head : t.head? ≠ some '"') :
    (s ++ t).head? ≠ some '"' := by
  cases s with
  | nil => exact head
  | cons c s =>
    intro isQuote
    exact noQuote (Option.some.inj isQuote ▸ List.mem_cons_self)

theorem fenced_of_noQuote (some : t ≠ []) (noQuote : '"' ∉ t) : t.Fenced [] := by
  obtain ⟨c, rest, rfl⟩ := List.exists_cons_of_ne_nil some
  exact ⟨holds_of_noQuote noQuote, ⟨c, rfl, fun isQuote => noQuote (isQuote ▸ List.mem_cons_self)⟩,
    fun isLast => noQuote (List.mem_of_getLast? isLast)⟩

/-- Between two texts without quotes, any text is fenced. -/
theorem Holds.fenced {front behind : Text} (holds : t.Holds ls) (left : front.Fenced [])
    (right : behind.Fenced []) : (front ++ t ++ behind).Fenced ls := by
  obtain ⟨c, isFirst, firstQuote⟩ := left.first
  obtain ⟨d, isNext, nextQuote⟩ := right.first
  have inner := (left.toHolds.append holds (.inl left.last)).append right.toHolds
    (.inr (by simpa [isNext] using nextQuote))
  rw [List.nil_append, List.append_nil] at inner
  refine ⟨inner, ⟨c, by simp [isFirst], firstQuote⟩, ?_⟩
  obtain ⟨rest, rfl⟩ := List.head?_eq_some_iff.1 isNext
  rw [List.getLast?_append_of_ne_nil _ (List.cons_ne_nil d rest)]
  exact right.last

end Text

/-! ## The forms of the parts -/

section Forms

variable {style : Style} {depth : Nat} {ts : List Text} {lss : List (List Text)}

theorem not_mem_indent : '"' ∉ style.indent depth := by
  intro met
  exact absurd (List.eq_of_mem_replicate met) (by decide)

theorem not_mem_argumentConnector (isLast : Bool) : '"' ∉ argumentConnector depth isLast := by
  cases depth with
  | zero => exact List.not_mem_nil
  | succ outer =>
    rw [argumentConnector, List.mem_append, not_or]
    refine ⟨fun met => absurd (List.eq_of_mem_replicate met) (by decide), ?_⟩
    cases isLast <;> decide

theorem not_mem_gapBetween (e : Expression) (es : List Expression) : '"' ∉ gapBetween e es := by
  unfold gapBetween
  split
  · exact List.not_mem_nil
  · split <;> decide

theorem fenced_groupText {content : Text} {ls : List Text} (holdsCall : Bool)
    (inner : content.Holds ls) : (groupText style depth holdsCall content).Fenced ls := by
  have closing : Text.Fenced [')'] [] := Text.fenced_of_noQuote (by simp) (by decide)
  unfold groupText
  split
  · exact inner.fenced (Text.fenced_of_noQuote (t := ['(']) (by simp) (by decide)) closing
  · have front : Text.Fenced ('(' :: '\n' :: style.indent (depth + 1)) [] :=
      Text.fenced_of_noQuote (by simp) (by simp [not_mem_indent])
    have behind : Text.Fenced ('\n' :: (style.indent depth ++ [')'])) [] :=
      Text.fenced_of_noQuote (by simp) (by simp [not_mem_indent])
    simpa using inner.fenced front behind

theorem holds_joined (each : List.Forall₂ Text.Holds ts lss) :
    (Text.joined [';', ' '] ts).Holds lss.flatten := by
  induction each with
  | nil => exact Text.holds_of_noQuote List.not_mem_nil
  | @cons t ls ts lss first rest ih =>
    cases rest with
    | nil => simpa [Text.joined] using first
    | cons =>
      exact first.append (ih.append_left (s := [';', ' ']) (by decide)) (.inr (by simp))

theorem holds_argumentLines (each : List.Forall₂ Text.Holds ts lss) :
    (argumentLines style depth ts).Holds lss.flatten := by
  induction each with
  | nil => exact Text.holds_of_noQuote List.not_mem_nil
  | @cons t ls ts lss first rest ih =>
    have lineEnd : '"' ∉ (if ts.isEmpty then [] else [';']) ++ ['\n'] := by split <;> decide
    have behind := first.append (ih.append_left lineEnd) (.inr (by split <;> simp))
    have front : '"' ∉ style.indent (depth + 1) ++
        (if style.useNestingIndicators then argumentConnector (depth + 1) ts.isEmpty else []) := by
      rw [List.mem_append, not_or]
      refine ⟨not_mem_indent, ?_⟩
      split
      · exact not_mem_argumentConnector _
      · exact List.not_mem_nil
    simpa [argumentLines] using behind.append_left front

theorem fenced_callText {name : Text} {arguments : List Expression}
    (isKnown : name ∈ FunctionName.known) (sizes : arguments.isEmpty = ts.isEmpty)
    (each : List.Forall₂ Text.Holds ts lss) :
    (callText style depth name arguments ts).Fenced lss.flatten := by
  obtain ⟨noEmpty, letters⟩ := FunctionName.spells_of_mem_known isKnown
  have noQuote : '"' ∉ name := fun met =>
    (FunctionName.spelling (letters _ met)).2.2.2.1 rfl
  have closing : Text.Fenced [')'] [] := Text.fenced_of_noQuote (by simp) (by decide)
  have opening : Text.Fenced (name ++ ['(']) [] :=
    Text.fenced_of_noQuote (by simp) (by simp [noQuote])
  have inline : (callInline name ts).Fenced lss.flatten := by
    simpa [callInline] using (holds_joined each).fenced opening closing
  unfold callText
  split
  · next none =>
    rw [sizes, List.isEmpty_iff] at none
    rwa [none] at inline
  · split
    · exact inline
    · have front : Text.Fenced (name ++ ['(', '\n']) [] :=
        Text.fenced_of_noQuote (by simp) (by simp [noQuote])
      have behind : Text.Fenced (style.indent depth ++ [')']) [] :=
        Text.fenced_of_noQuote (by simp) (by simp [not_mem_indent])
      simpa [callBroken] using (holds_argumentLines each).fenced front behind

theorem fenced_lexeme (op : Operator) : op.lexeme.Fenced [] := by
  refine Text.fenced_of_noQuote ?_ (Mark.not_mem_lexeme op (by decide))
  cases op <;> exact List.cons_ne_nil _ _

/-! ## Parts in a row -/

theorem holds_leaf {t : Text} {ls : List Text} (holds : t.Holds ls) : (style.leaf t).Holds ls := by
  unfold Style.leaf
  split
  · exact holds.spaced
  · exact holds

theorem layout_leaf {t : Text} : layout style depth (.leaf t) = style.leaf t := by
  rw [Expression.leaf, layout_plain, if_pos List.isEmpty_nil]

/-- A token, a fenced part behind it, and what follows. -/
theorem holds_part {pending : Text} {e : Expression} {es : List Expression}
    {js ks ls : List Text} (token : pending.Holds js) (part : (layout style depth e).Fenced ks)
    (others : (layoutSequence style depth es).Holds ls) :
    (layoutSequence style depth (tokenLeaf pending ++ e :: es)).Holds (js ++ (ks ++ ls)) := by
  obtain ⟨c, isFirst, noQuote⟩ := part.first
  have behind := part.toHolds.append (others.append_left (not_mem_gapBetween e es))
    (.inl part.last)
  have trimmed := token.trim
  rw [← layoutSequence_cons] at behind
  unfold tokenLeaf
  split
  · next empty =>
    rw [List.isEmpty_iff.1 empty] at trimmed
    rwa [← trimmed.literals, (Text.holds_of_noQuote List.not_mem_nil).literals]
  · rw [List.singleton_append, layoutSequence_cons, layout_leaf]
    refine (holds_leaf trimmed).append (behind.append_left (not_mem_gapBetween _ _)) (.inr ?_)
    refine Text.head?_append_ne_quote (not_mem_gapBetween _ _) ?_
    rw [layoutSequence_cons, List.head?_append, isFirst]
    simpa using noQuote

theorem holds_tokenLeaf {pending : Text} {ls : List Text} (token : pending.Holds ls) :
    (layoutSequence style depth (tokenLeaf pending)).Holds ls := by
  have trimmed := token.trim
  unfold tokenLeaf
  split
  · next empty =>
    rwa [List.isEmpty_iff.1 empty] at trimmed
  · rw [layoutSequence_cons, layout_leaf]
    simpa [gapBetween] using holds_leaf trimmed

theorem holds_argumentOf {t : Text} {es : List Expression} {ls : List Text} (whole : t.Holds ls)
    (parts : (layoutSequence style depth es).Holds ls) :
    (layout style depth (argumentOf t es)).Holds ls := by
  unfold argumentOf
  split
  · exact layout_leaf ▸ holds_leaf whole
  · simpa [layoutSequence_cons, gapBetween] using parts
  · next several _ =>
    rwa [layout_plain, if_neg (by simpa using several)]

/-- A last part that does not begin with a quote. -/
theorem holds_concat {e : Expression} {es : List Expression} {ks ls : List Text}
    (parts : (layoutSequence style depth es).Holds ks) (last : (layout style depth e).Holds ls)
    (head : (layout style depth e).head? ≠ some '"') :
    (layoutSequence style depth (es ++ [e])).Holds (ks ++ ls) := by
  have cut : ∃ gap, '"' ∉ gap ∧ layoutSequence style depth (es ++ [e]) =
      layoutSequence style depth es ++ (gap ++ layout style depth e) := by
    clear parts
    induction es with
    | nil => exact ⟨[], List.not_mem_nil, by simp [layoutSequence_cons, gapBetween]⟩
    | cons d es ih =>
      obtain ⟨gap, noQuote, same⟩ := ih
      rw [List.cons_append, layoutSequence_cons, layoutSequence_cons, same]
      cases es with
      | nil =>
        refine ⟨gapBetween d [e] ++ gap, ?_, by simp [gapBetween]⟩
        rw [List.mem_append, not_or]
        exact ⟨not_mem_gapBetween d [e], noQuote⟩
      | cons => exact ⟨gap, noQuote, by simp [gapBetween]⟩
  obtain ⟨gap, noQuote, same⟩ := cut
  rw [same]
  exact parts.append (last.append_left noQuote) (.inr (Text.head?_append_ne_quote noQuote head))

end Forms

/-! ## Reading and layout -/

namespace Mark

variable {style : Style} {separator : Separator} {pending : Text} {ms : List Mark}

/-- Arguments are laid out with their literals, as long as their parts are. -/
theorem holds_arguments {depth : Nat} (readable : Readable ms) (proper : Proper (joined [] ms))
    (ih : ∀ part ∈ argumentParts separator ms, Proper (joined [] (trimmed part)) →
      (layoutSequence style depth (read separator false [] (trimmed part)).value).Holds
        (Piece.literals (joined [] (trimmed part)))) :
    List.Forall₂ Text.Holds
      (layoutEach style depth ((argumentParts separator ms).map (readArgument separator)))
      ((argumentParts separator ms).map literals) := by
  rw [layoutEach_eq_map, List.map_map, List.forall₂_map_left_iff, List.forall₂_map_right_iff,
    List.forall₂_same]
  intro part isPart
  have genuine := (readable.of_mem_argumentParts isPart).genuine
  have partProper := proper_fresh proper
    (isInfix_of_mem_argumentParts readable.enclosed isPart)
  have closed := closed_of_proper partProper
  have trimmedProper := proper_fresh partProper (trimmed_isInfix closed)
  have parts := ih part isPart trimmedProper
  rw [joined_nil] at parts trimmedProper
  rw [← literals_trimmed genuine closed]
  exact holds_argumentOf (Text.holds_textOf trimmedProper) parts

/-- The parts that are read from marks are laid out with the literals of the pending token and of
the marks. -/
theorem holds_read (style : Style) (afterOperand : Bool) (pending : Text)
    (readable : Readable ms) (proper : Proper (joined pending ms)) (depth : Nat) :
    (layoutSequence style depth (read separator afterOperand pending ms).value).Holds
      (Piece.literals (joined pending ms)) := by
  revert proper depth
  refine read_induction separator
    (motive := fun afterOperand pending ms => Proper (joined pending ms) → ∀ depth,
      (layoutSequence style depth (read separator afterOperand pending ms).value).Holds
        (Piece.literals (joined pending ms)))
    ?nil ?literal ?connector ?operator ?char ?call ?group afterOperand pending readable
  case nil =>
    intro afterOperand pending proper depth
    rw [read_nil, Transcript.value_pure, literals_joined, literals, List.map_nil,
      Piece.literals_nil, List.append_nil]
    exact holds_tokenLeaf (holds_token proper)
  case literal =>
    intro afterOperand pending mark rest text closed _ isLiteral ih proper depth
    have cut := joined_append proper
    rw [isLiteral, Piece.text] at cut
    rw [read_literal isLiteral, Transcript.value_bind, ← cut]
    rw [← cut] at proper
    exact ih proper depth
  case connector =>
    intro afterOperand pending mark rest c _ isChar noOpening connector ih proper depth
    obtain ⟨behind, same⟩ := joined_space proper isChar
    rw [read_connector isChar noOpening connector, ← same]
    exact ih behind depth
  case operator =>
    intro afterOperand pending mark rest c op _ isChar noOpening noConnector standalone isLexeme _
      ih proper depth
    have behind := ih (proper_fresh proper (drop_isInfix mark rest _)) depth
    have part : (layout style depth (.operator op)).Fenced [] :=
      layout_operator ▸ fenced_lexeme op
    have lexeme : literals (mark :: rest.take (op.width - 1)) = [] := by
      rw [literals, isLexeme, Piece.literals_chars]
    rw [read_operator isChar noOpening noConnector standalone, Transcript.value_bind,
      Transcript.value_pure, literals_joined, ← cons_take_append_drop mark rest (op.width - 1),
      literals_append, lexeme]
    rw [joined_nil] at behind
    exact holds_part (holds_token proper) part behind
  case char =>
    intro afterOperand pending mark rest c _ isChar noOpening _ noConnector joins ih proper depth
    have cut := joined_append proper
    rw [isChar, Piece.text] at cut
    rw [read_char isChar noOpening noConnector joins, ← cut]
    rw [← cut] at proper
    exact ih proper depth
  case call =>
    intro afterOperand pending opening inside tail name readable isOpening insideReadable closes _
      known ihArguments ihTail proper depth
    have insideProper := proper_fresh proper (inside_isInfix opening inside tail)
    have behind := ihTail (proper_fresh proper (tail_isInfix opening inside tail)) depth
    have front := (holds_token proper).cutBeforeName
    have arguments := holds_arguments insideReadable insideProper fun part isPart proper =>
      ihArguments part isPart proper (depth + 1)
    have sizes : ((argumentParts separator inside).map (readArgument separator)).isEmpty =
        (layoutEach style (depth + 1) ((argumentParts separator inside).map
          (readArgument separator))).isEmpty := by
      rw [layoutEach_eq_map, List.isEmpty_map (f := layout style (depth + 1))]
    have isKnown := (FunctionName.canonical?_eq_some.1 known).1
    have part : (callText style depth name _ _).Fenced _ := fenced_callText isKnown sizes arguments
    rw [value_read_call isOpening insideReadable closes known, literals_joined,
      literals_opening (char?_char isOpening) closes,
      literals_argumentParts separator insideReadable.genuine insideReadable.enclosed]
    rw [joined_nil] at behind
    exact holds_part front (layout_call isKnown ▸ part) behind
  case group =>
    intro afterOperand pending opening inside tail _ isOpening insideReadable closes _ unknown
      ihInside ihTail proper depth
    have inner := ihInside (proper_fresh proper (inside_isInfix opening inside tail)) (depth + 1)
    have behind := ihTail (proper_fresh proper (tail_isInfix opening inside tail)) depth
    rw [value_read_group isOpening insideReadable closes unknown, literals_joined,
      literals_opening (char?_char isOpening) closes]
    rw [joined_nil] at inner behind
    exact holds_part (holds_token proper) (layout_group ▸ fenced_groupText _ inner) behind

end Mark

/-! ## Formulas -/

/-- The text from a `)` without a partner on is laid out with its literals, behind the `)`. -/
theorem Mark.holds_stray (style : Style) {stray : Mark} {tail : List Mark}
    (genuine : AllGenuine (stray :: tail)) (isClosing : stray.char? = some ')')
    (proper : Proper (joined [] (stray :: tail))) :
    (style.leaf (sourceText (trimmed (stray :: tail)))).Holds (literals (stray :: tail)) ∧
      (style.leaf (sourceText (trimmed (stray :: tail)))).head? = some ')' := by
  have closed := closed_of_proper proper
  have trimmedProper := proper_fresh proper (trimmed_isInfix closed)
  have begins : (sourceText (trimmed (stray :: tail))).head? = some ')' :=
    head?_trimmed genuine.head isClosing
  rw [joined_nil] at trimmedProper
  have source := Text.holds_textOf trimmedProper
  rw [← literals, literals_trimmed genuine closed] at source
  exact ⟨holds_leaf source, Style.head?_leaf begins (by decide)⟩

namespace Formula

open Mark

theorem holds_layout_tree (f : Formula) (style : Style) (closed : f.body.LiteralsClosed) :
    (layout style 0 f.tree).Holds f.body.literals := by
  have genuine := allGenuine_marks f.body
  have proper := proper_marks closed
  have cut := cutAtClose_whole 0 (marks f.body)
  have within : (cutAtClose 0 (marks f.body)).1 <:+: marks f.body := ⟨[], _, cut⟩
  have front : (layoutSequence style 0 (read f.separator false []
      (cutAtClose 0 (marks f.body)).1).value).Holds _ :=
    holds_read style false [] (readable_fst_cutAtClose genuine) (proper_fresh proper within) 0
  have whole : f.body.literals = Mark.literals (cutAtClose 0 (marks f.body)).1 ++
      Mark.literals (cutAtClose 0 (marks f.body)).2 := by
    rw [← literals_append, cut, Mark.literals, map_piece_marks, Text.literals]
  rw [joined_nil, ← Mark.literals] at front
  rw [tree_parts, layout_plain]
  split
  -- of a tree without parts the body itself is laid out
  · exact holds_leaf ⟨closed, rfl⟩
  · rw [whole]
    cases stray : (cutAtClose 0 (marks f.body)).2 with
    | nil => simpa [strayLeaf, Mark.literals] using front
    | cons closing tail =>
      have behind : closing :: tail <:+: marks f.body :=
        ⟨(cutAtClose 0 (marks f.body)).1, [], by rw [List.append_nil, ← stray, cut]⟩
      obtain ⟨leaf, begins⟩ := holds_stray style (genuine.of_subset behind.subset)
        (head_snd_cutAtClose stray).1 (proper_fresh proper behind)
      rw [strayLeaf]
      refine holds_concat front (layout_leaf ▸ leaf) ?_
      rw [layout_leaf, begins]
      decide

end Formula

/-- A beautified formula has the literals of the formula. -/
theorem holds_beautify {style : Style} {t : Text} (narrow : style.indentSize ≤ widestIndent)
    (closed : (Formula.ofText t).body.LiteralsClosed) :
    (beautify style t).Holds (Formula.ofText t).body.literals := by
  have laidOut := (Formula.ofText t).holds_layout_tree style closed
  rw [beautify_eq narrow, Formula.withEquals]
  split
  · exact laidOut.append_left (s := ['=']) (by decide)
  · exact laidOut

/-- However often it is beautified, a formula without unclosed literals keeps its literals. -/
theorem holds_passes {style : Style} {t : Text} (narrow : style.indentSize ≤ widestIndent)
    (closed : (Formula.ofText t).body.LiteralsClosed) (count : Nat) :
    ∀ u ∈ passes style count t, u.Holds (Formula.ofText t).body.literals := by
  induction count generalizing t with
  | zero => exact fun u met => absurd met List.not_mem_nil
  | succ count ih =>
    intro u met
    have first := holds_beautify narrow closed
    rcases List.mem_cons.1 met with rfl | met
    · exact first
    · rw [← first.body.literals]
      exact ih first.body.closed u met

/-- A separator, a parenthesis and a quote in a literal, and a call and a group left open. -/
theorem holds_passes_open :
    (beautify .standard (beautify .standard "=if(a,\"( ; \"\"\",(b&\"x\"".toList)).Holds
      ["\"( ; \"\"\"".toList, "\"x\"".toList] := by
  have body : (Formula.ofText "=if(a,\"( ; \"\"\",(b&\"x\"".toList).body.literals =
      ["\"( ; \"\"\"".toList, "\"x\"".toList] := by
    decide +kernel
  rw [← body]
  exact holds_passes (by decide) (by show ∀ p ∈ _, _; decide +kernel) 2 _
    (List.mem_cons_of_mem _ List.mem_cons_self)

/-- The `)` of an open parenthesis stands inside a literal that is left open too. -/
theorem beautify_unclosed_literal_changes :
    Style.standard.indentSize ≤ widestIndent ∧
      (Formula.ofText "=(s\"".toList).body.literals = ["\"".toList] ∧
      (beautify .standard "=(s\"".toList).literals = ["\")".toList] := by
  refine ⟨?_, ?_, ?_⟩ <;> decide +kernel

end SheetFormula
