import SheetFormula.Proofs.Marks.Completed
import SheetFormula.Proofs.Reading.Erased
import SheetFormula.Proofs.Reading.Rows

/-!
# Reading completed marks

A parenthesis that is never closed is read up to the end of the marks, as if it were closed there.
So the `)` that marks lack make no difference to what is read, but for the texts of groups, calls
and parts in a row (`erased_read_completed`).

## Main definitions

* `Text.Idle` — characters that no operator is told by
-/

namespace SheetFormula

/-! ## Characters behind an operator -/

/-- A character that belongs to no operator, and continues neither a reference nor a number. -/
structure Text.Idle (c : Char) : Prop where
  noLexeme : ∀ op : Operator, c ∉ op.lexeme
  noReference : isReferencePart c = false
  noDigit : c.isDigit = false
  ne_dot : c ≠ '.'

namespace Text

variable {c : Char}

theorem idle_closing : Idle ')' where
  noLexeme op := by cases op <;> decide
  noReference := by decide
  noDigit := by decide
  ne_dot := by decide

theorem idle_of_isBlank (blank : isBlank c = true) : Idle c where
  noLexeme op met := by
    rw [(Operator.lexeme_spelling met).2.2.1] at blank
    cases blank
  noReference := isBlank_induction (P := fun c => isReferencePart c = false) (by decide) blank
  noDigit := isBlank_induction (P := fun c => c.isDigit = false) (by decide) blank
  ne_dot := isBlank_induction (P := fun c => c ≠ '.') (by decide) blank

theorem idle_of_isConnector (connector : isConnector c = true) : Idle c where
  noLexeme op met := by
    rw [(Operator.lexeme_spelling met).2.1] at connector
    cases connector
  noReference := by rcases isConnector_iff.1 connector with rfl | rfl | rfl | rfl <;> decide
  noDigit := by rcases isConnector_iff.1 connector with rfl | rfl | rfl | rfl <;> decide
  ne_dot := by rcases isConnector_iff.1 connector with rfl | rfl | rfl | rfl <;> decide

/-- A lexeme is told without the text behind that has none of its characters. -/
theorem isPrefixOf_append_other {lexeme u : Text} (others : ∀ c ∈ u, c ∉ lexeme) (s : Text) :
    lexeme.isPrefixOf (s ++ u) = lexeme.isPrefixOf s := by
  induction s generalizing lexeme with
  | nil =>
    cases lexeme with
    | nil => rfl
    | cons d lexeme =>
      cases u with
      | nil => rfl
      | cons c u =>
        have different : d ≠ c := fun same => others c List.mem_cons_self (by simp [same])
        simp [List.isPrefixOf, different]
  | cons c s ih =>
    cases lexeme with
    | nil => rfl
    | cons d lexeme =>
      rw [List.cons_append, List.isPrefixOf, List.isPrefixOf,
        ih fun e met within => others e met (List.mem_cons_of_mem _ within)]

end Text

/-- No operator joins a token because of an idle character. -/
theorem joinsToken_idle {c : Char} (idle : Text.Idle c) (op : Operator) (afterOperand : Bool)
    (pending : Text) :
    joinsToken op afterOperand pending (some c) = joinsToken op afterOperand pending none := by
  have number : (c.isDigit || c == '.') = false := by
    rw [idle.noDigit, Bool.false_or, beq_eq_false_iff_ne]
    exact idle.ne_dot
  cases op <;> simp only [joinsToken, Option.any_some, Option.any_none, idle.noReference, number]

theorem tokenLeaf_append_blank {c : Char} (blank : Text.isBlank c = true) (pending : Text) :
    tokenLeaf (pending ++ [c]) = tokenLeaf pending := by
  have same : Text.trim ([] ++ pending ++ [c]) = Text.trim pending :=
    trimEnds_append (fun _ met => absurd met List.not_mem_nil) (by simpa using blank) pending
  rw [List.nil_append] at same
  rw [tokenLeaf, tokenLeaf, same]

open Expression

namespace Mark

variable {separator : Separator} {afterOperand : Bool} {pending : Text} {m : Mark}
  {ms blanks closers : List Mark}

/-- A single idle character. -/
def IsIdle (m : Mark) : Prop :=
  ∃ c, m.piece = .char c ∧ Text.Idle c

theorem Genuine.isIdle (genuine : m.Genuine) (layout : m.isLayout = true) : m.IsIdle := by
  obtain ⟨c, isChar, kind⟩ := genuine.of_layout layout
  exact ⟨c, isChar, kind.elim Text.idle_of_isBlank Text.idle_of_isConnector⟩

theorem Completes.isIdle (completes : Completes ms blanks closers) :
    ∀ m ∈ blanks ++ closers, m.IsIdle := by
  refine List.forall_mem_append.2 ⟨fun m met => ?_, fun m met => ?_⟩
  · exact (completes.genuine m (List.mem_append_left _ met)).isIdle (completes.layout m met)
  · exact ⟨')', piece_of_char? (completes.closing m met), Text.idle_closing⟩

theorem mem_sourceText_of_isIdle (idle : ∀ m ∈ ms, m.IsIdle) :
    ∀ c ∈ sourceText ms, Text.Idle c := by
  induction ms with
  | nil => exact fun c met => absurd met List.not_mem_nil
  | cons m ms ih =>
    obtain ⟨⟨d, isChar, first⟩, rest⟩ := List.forall_mem_cons.1 idle
    rw [sourceText_cons, isChar]
    exact List.forall_mem_cons.2 ⟨first, ih rest⟩

/-- Idle marks at the end do not tell an operator. -/
theorem standaloneOperator?_append {extra : List Mark} (idle : ∀ m ∈ extra, m.IsIdle) :
    standaloneOperator? afterOperand pending (ms ++ extra) =
      standaloneOperator? afterOperand pending ms := by
  have starts : Operator.atStart? (sourceText ((ms ++ extra).take 2)) =
      Operator.atStart? (sourceText (ms.take 2)) := by
    have same : (fun op : Operator => op.lexeme.isPrefixOf (sourceText ((ms ++ extra).take 2))) =
        fun op => op.lexeme.isPrefixOf (sourceText (ms.take 2)) := by
      funext op
      have behind : ∀ c ∈ sourceText (extra.take (2 - ms.length)), Text.Idle c :=
        mem_sourceText_of_isIdle fun m met => idle m (List.mem_of_mem_take met)
      rw [List.take_append, sourceText_append]
      exact Text.isPrefixOf_append_other (fun c met => (behind c met).noLexeme op) _
    rw [Operator.atStart?, Operator.atStart?, same]
  have joins : ∀ op : Operator,
      joinsToken op afterOperand pending (((ms ++ extra).drop op.width).head?.bind Mark.char?) =
        joinsToken op afterOperand pending ((ms.drop op.width).head?.bind Mark.char?) := by
    intro op
    rw [List.drop_append]
    cases ms.drop op.width with
    | cons next others => rfl
    | nil =>
      cases behind : extra.drop (op.width - ms.length) with
      | nil => rfl
      | cons next others =>
        have met : next ∈ extra := List.mem_of_mem_drop (behind ▸ List.mem_cons_self)
        obtain ⟨c, isChar, noOperator⟩ := idle next met
        have isNext : (([] ++ next :: others).head?.bind Mark.char?) = some c := char?_char isChar
        rw [isNext]
        exact joinsToken_idle noOperator op afterOperand pending
  simp only [standaloneOperator?, starts, joins]

/-- Layout alone only flushes the token. -/
theorem value_read_layout (genuine : AllGenuine ms) (layout : ∀ m ∈ ms, m.isLayout = true) :
    (read separator afterOperand pending ms).value = tokenLeaf pending := by
  induction ms generalizing pending with
  | nil => rw [read_nil]; rfl
  | cons m ms ih =>
    obtain ⟨isLayout, rest⟩ := List.forall_mem_cons.1 layout
    obtain ⟨c, isChar, kind⟩ := genuine.head.of_layout isLayout
    have noOpening : c ≠ '(' := fun isOpening =>
      genuine.head.char?_ne_of_layout isLayout (by decide) (by decide)
        (char?_char (isOpening ▸ isChar))
    by_cases connector : Text.isConnector c = true
    · rw [read_connector isChar noOpening (by rw [isLayout, connector]; rfl), ih genuine.tail rest]
      exact tokenLeaf_append_blank (by decide) pending
    · have idle : ∀ m' ∈ m :: ms, m'.IsIdle := fun m' met =>
        (genuine m' met).isIdle (layout m' met)
      have joins : standaloneOperator? afterOperand pending ([] ++ m :: ms) = none :=
        standaloneOperator?_append idle
      rw [read_char isChar noOpening (by simp [connector]) joins, ih genuine.tail rest]
      exact tokenLeaf_append_blank (kind.resolve_right connector) pending

/-! ## Completed arguments -/

/-- An argument that is completed is the same expression, if its parts are. -/
theorem erased_readArgument_completed {part : List Mark} (readable : Readable part)
    (completes : Completes part blanks closers)
    (ih : ∀ {more}, Completes (trimmed part) more closers →
      erasedEach (read separator false [] (trimmed part ++ (more ++ closers))).value =
        erasedEach (read separator false [] (trimmed part)).value) :
    (readArgument separator (part ++ (blanks ++ closers))).erased =
      (readArgument separator part).erased := by
  by_cases missing : closers = []
  · rw [missing, List.append_nil, readArgument, trimmed_append_layout completes.layout,
      ← readArgument]
  · obtain ⟨more, trimmedCompletes, same⟩ :=
      completes.trimmed readable.genuine readable.enclosed missing
    have children := ih trimmedCompletes
    rw [readArgument, readArgument, same]
    refine erased_argumentOf children fun empty => ?_
    -- what lacks a `)` is not empty
    rw [empty, erasedEach, eq_comm, erasedEach_eq_nil] at children
    have nothing := trimmedCompletes.matched
    rw [trimmed_eq_nil readable children, openAfter_nil, eq_comm, List.length_eq_zero_iff]
      at nothing
    exact absurd nothing missing

/-! ## Completed parts in a row -/

/-- The readers find the same in completed marks as in the marks. -/
theorem erased_read_completed (afterOperand : Bool) (pending : Text) (readable : Readable ms)
    (completes : Completes ms blanks closers) :
    erasedEach (read separator afterOperand pending (ms ++ (blanks ++ closers))).value =
      erasedEach (read separator afterOperand pending ms).value := by
  revert blanks closers
  refine read_induction separator
    (motive := fun afterOperand pending ms => ∀ {blanks closers}, Completes ms blanks closers →
      erasedEach (read separator afterOperand pending (ms ++ (blanks ++ closers))).value =
        erasedEach (read separator afterOperand pending ms).value)
    ?nil ?literal ?connector ?operator ?char ?call ?group afterOperand pending readable
  case nil =>
    intro afterOperand pending blanks closers completes
    have nothing : closers = [] := List.length_eq_zero_iff.1 completes.matched.symm
    have genuine := completes.genuine
    rw [nothing, List.append_nil] at genuine ⊢
    rw [List.nil_append, value_read_layout genuine completes.layout, read_nil]
    rfl
  case literal =>
    intro afterOperand pending mark rest text closed _ isLiteral ih blanks closers completes
    have noChar := char?_literal isLiteral
    rw [List.cons_append, read_literal isLiteral, read_literal isLiteral, Transcript.value_bind,
      Transcript.value_bind]
    exact ih (completes.tail (by simp [noChar]) (by simp [noChar]))
  case connector =>
    intro afterOperand pending mark rest c _ isChar noOpening connector ih blanks closers completes
    have isMark := char?_char isChar
    obtain ⟨-, isConnector⟩ := Bool.and_eq_true_iff.1 connector
    have noClosing := Text.ne_closing_of_isConnector isConnector
    rw [List.cons_append, read_connector isChar noOpening connector,
      read_connector isChar noOpening connector]
    exact ih (completes.tail (by simpa [isMark] using noOpening)
      (by simpa [isMark] using noClosing))
  case operator =>
    intro afterOperand pending mark rest c op _ isChar noOpening noConnector standalone isLexeme _
      ih blanks closers completes
    have again : standaloneOperator? afterOperand pending
        (mark :: rest ++ (blanks ++ closers)) = some op := by
      rw [standaloneOperator?_append completes.isIdle, standalone]
    have size : op.width - 1 ≤ rest.length := by
      have length := congrArg List.length isLexeme
      rw [List.length_map, List.length_map, List.length_cons, List.length_take,
        ← Operator.width] at length
      omega
    have behind : Completes (rest.drop (op.width - 1)) blanks closers := by
      rw [← cons_take_append_drop mark rest (op.width - 1)] at completes
      exact completes.append_right (noParenthesis_of_lexeme isLexeme)
    rw [List.cons_append] at again ⊢
    rw [read_operator isChar noOpening noConnector again,
      read_operator isChar noOpening noConnector standalone, List.drop_append_of_le_length size]
    simp only [Transcript.value_bind, Transcript.value_pure, erasedEach_append, erasedEach]
    exact congrArg (_ ++ _ :: ·) (ih behind)
  case char =>
    intro afterOperand pending mark rest c _ isChar noOpening noClosing noConnector standalone ih
      blanks closers completes
    have isMark := char?_char isChar
    have again : standaloneOperator? afterOperand pending
        (mark :: rest ++ (blanks ++ closers)) = none := by
      rw [standaloneOperator?_append completes.isIdle, standalone]
    rw [List.cons_append] at again ⊢
    rw [read_char isChar noOpening noConnector again,
      read_char isChar noOpening noConnector standalone]
    exact ih (completes.tail (by simpa [isMark] using noOpening)
      (by simpa [isMark] using noClosing))
  case call =>
    intro afterOperand pending opening inside tail name _ isOpening insideReadable closes
      tailReadable known ihArguments ihTail blanks closers completes
    obtain ⟨innerBlanks, inner, closing, outerBlanks, outer, within, behind, same, closed⟩ :=
      completes.parentheses (char?_char isOpening) insideReadable.genuine insideReadable.enclosed
        tailReadable.genuine closes
    obtain ⟨genuine, enclosed, -⟩ := within.readable insideReadable.genuine insideReadable.enclosed
    have arguments : erasedEach ((argumentParts separator
        (inside ++ (innerBlanks ++ inner))).map (readArgument separator)) =
          erasedEach ((argumentParts separator inside).map (readArgument separator)) := by
      refine erasedEach_map
        (argumentParts_completed within insideReadable.genuine insideReadable.enclosed)
        fun part isPart other _ completed => ?_
      cases completed with
      | same => rfl
      | last matched =>
        have partReadable := insideReadable.of_mem_argumentParts isPart
        have partComplete := within.complete.of_subset
          (subset_of_mem_argumentParts insideReadable.enclosed isPart)
        exact erased_readArgument_completed partReadable
          ⟨partComplete, within.genuine, within.layout, within.closing, matched⟩
          (ihArguments part isPart)
    rw [same, value_read_call isOpening insideReadable closes known,
      value_read_call isOpening ⟨genuine, enclosed⟩ closed known, erasedEach_append,
      erasedEach_append, erasedEach, erasedEach, erased, erased, arguments, List.tail_cons,
      ihTail behind]
  case group =>
    intro afterOperand pending opening inside tail _ isOpening insideReadable closes tailReadable
      unknown ihInside ihTail blanks closers completes
    obtain ⟨innerBlanks, inner, closing, outerBlanks, outer, within, behind, same, closed⟩ :=
      completes.parentheses (char?_char isOpening) insideReadable.genuine insideReadable.enclosed
        tailReadable.genuine closes
    obtain ⟨genuine, enclosed, -⟩ := within.readable insideReadable.genuine insideReadable.enclosed
    rw [same, value_read_group isOpening insideReadable closes unknown,
      value_read_group isOpening ⟨genuine, enclosed⟩ closed unknown, erasedEach_append,
      erasedEach_append, erasedEach, erasedEach, erased, erased, ihInside within, List.tail_cons,
      ihTail behind]

end Mark

end SheetFormula
