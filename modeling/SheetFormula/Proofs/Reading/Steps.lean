import SheetFormula.Proofs.Marks.Enclosed
import SheetFormula.Proofs.Reading.Transcript
import SheetFormula.Proofs.Text.Characters

/-!
# The steps of a reading

What the readers do to the first marks, one equation for each kind of step, and the induction
along these steps (`read_induction`). The marks behind an opening parenthesis appear here as the
marks inside it and the tail that follows them, so no statement speaks of cuts.

## Main definitions

* `Mark.Readable` — genuine and enclosed marks, which the readers work on
* `Mark.read` — the transcript of reading parts in a row
* `Mark.readArgument` — the expression of one part of an argument list
-/

namespace SheetFormula

namespace Mark

/-- Genuine marks of which no `)` lacks its partner. -/
structure Readable (ms : List Mark) : Prop where
  genuine : AllGenuine ms
  enclosed : Enclosed 0 ms

theorem readable_fst_cutAtClose {ms : List Mark} (genuine : AllGenuine ms) :
    Readable (cutAtClose 0 ms).1 :=
  ⟨genuine.of_subset (fst_cutAtClose_subset 0 ms), enclosed_fst_cutAtClose 0 ms⟩

theorem Readable.trimmed {ms : List Mark} (readable : Readable ms) : Readable (trimmed ms) :=
  ⟨readable.genuine.trimmed, (readable.enclosed.trimmed readable.genuine).1⟩

theorem Readable.of_mem_argumentParts {separator : Separator} {ms part : List Mark}
    (readable : Readable ms) (isPart : part ∈ argumentParts separator ms) : Readable part :=
  ⟨readable.genuine.of_subset (subset_of_mem_argumentParts readable.enclosed isPart),
    enclosed_of_mem_argumentParts readable.enclosed isPart⟩

/-- Behind a mark that is no parenthesis the marks stay readable. -/
theorem Readable.tail {m : Mark} {ms : List Mark} (readable : Readable (m :: ms))
    (noOpening : m.char? ≠ some '(') : Readable ms := by
  obtain ⟨first, rest⟩ := enclosed_cons.1 readable.enclosed
  rw [depthAfter_other noOpening fun closing => first ⟨rfl, closing⟩] at rest
  exact ⟨readable.genuine.tail, rest⟩

/-- The transcript of reading parts in a row. -/
def read (separator : Separator) (afterOperand : Bool) (pending : Text) (ms : List Mark) :
    Transcript (List Expression) :=
  readSequence Transcript.events separator afterOperand pending ms

/-- The expression of one part of an argument list. -/
def readArgument (separator : Separator) (part : List Mark) : Expression :=
  argumentOf (sourceText (trimmed part)) (read separator false [] (trimmed part)).value

/-- The text of the marks from an opening parenthesis to its `)`. -/
def enclosedText (opening : Mark) (inside tail : List Mark) : Text :=
  sourceText (opening :: inside ++ tail.take 1)

/-! ## One equation for each step -/

section Steps

variable {separator : Separator} {afterOperand : Bool} {pending : Text} {mark : Mark}
  {rest : List Mark}

@[simp] theorem read_nil :
    read separator afterOperand pending [] = pure (tokenLeaf pending) := by
  rw [read, readSequence]

theorem read_literal {text : Text} {closed : Bool} (isLiteral : mark.piece = .literal text closed) :
    read separator afterOperand pending (mark :: rest) = (do
      reportLiteral Transcript.events closed mark.position
      read separator afterOperand (pending ++ text) rest) := by
  rw [read, readSequence]
  simp only [isLiteral, read]

theorem read_connector {c : Char} (isChar : mark.piece = .char c) (noOpening : c ≠ '(')
    (connector : (mark.isLayout && Text.isConnector c) = true) :
    read separator afterOperand pending (mark :: rest) =
      read separator afterOperand (pending ++ [' ']) rest := by
  rw [read, readSequence]
  simp only [isChar, if_neg noOpening, if_pos connector, read]

theorem read_char {c : Char} (isChar : mark.piece = .char c) (noOpening : c ≠ '(')
    (noConnector : ¬(mark.isLayout && Text.isConnector c) = true)
    (joins : standaloneOperator? afterOperand pending (mark :: rest) = none) :
    read separator afterOperand pending (mark :: rest) =
      read separator afterOperand (pending ++ [c]) rest := by
  rw [read, readSequence]
  simp only [isChar, if_neg noOpening, if_neg noConnector, joins, read]

theorem read_operator {c : Char} {op : Operator} (isChar : mark.piece = .char c)
    (noOpening : c ≠ '(') (noConnector : ¬(mark.isLayout && Text.isConnector c) = true)
    (standalone : standaloneOperator? afterOperand pending (mark :: rest) = some op) :
    read separator afterOperand pending (mark :: rest) = (do
      let more ← read separator false [] (rest.drop (op.width - 1))
      pure (tokenLeaf pending ++ .operator op :: more)) := by
  rw [read, readSequence]
  simp only [isChar, if_neg noOpening, if_neg noConnector, standalone, read]

/-- The arguments of a call are read one by one; none of them has a `)` without a partner. -/
theorem readArguments_readable {parts : List (List Mark)}
    (readable : ∀ part ∈ parts, Readable part) :
    (readArguments Transcript.events separator parts).value = parts.map (readArgument separator) ∧
      (readArguments Transcript.events separator parts).faults =
        parts.flatMap fun part => (read separator false [] (trimmed part)).faults := by
  induction parts with
  | nil => rw [readArguments]; exact ⟨rfl, rfl⟩
  | cons part parts ih =>
    obtain ⟨values, faults⟩ := ih fun other met => readable other (List.mem_cons_of_mem _ met)
    have whole := (readable part List.mem_cons_self).trimmed.enclosed.cutAtClose_eq
    have first : readWhole Transcript.events separator (trimmed part) =
        read separator false [] (trimmed part) >>= pure := by
      rw [readWhole, whole]
      rfl
    rw [readArguments, first]
    constructor
    · simp only [Transcript.value_bind, Transcript.value_pure, values, List.map_cons,
        readArgument]
    · simp only [Transcript.faults_bind, Transcript.faults_pure, Transcript.value_bind,
        Transcript.value_pure, List.append_nil, faults, List.flatMap_cons]

variable {opening : Mark} {inside tail : List Mark}

/-- An opening parenthesis is read with the marks inside it and their tail. -/
theorem read_opening (isOpening : opening.piece = .char '(') (readable : Readable inside)
    (closes : Closes inside tail) :
    read separator afterOperand pending (opening :: (inside ++ tail)) =
      readOpened Transcript.events separator pending opening inside tail := by
  rw [read, readSequence]
  simp only [isOpening, if_pos, closes.cutAtClose_eq readable.enclosed]

theorem read_group (isOpening : opening.piece = .char '(') (readable : Readable inside)
    (closes : Closes inside tail)
    (unknown : FunctionName.canonical? (Text.cutBeforeName pending).2 = none) :
    read separator afterOperand pending (opening :: (inside ++ tail)) = (do
      let parts ← read separator false [] inside
      reportUnclosedParenthesis Transcript.events opening tail
      let more ← read separator true [] tail.tail
      pure (tokenLeaf pending ++ .group (enclosedText opening inside tail) parts :: more)) := by
  rw [read_opening isOpening readable closes, readOpened]
  simp only [unknown, read, enclosedText]

theorem read_call {name : Text} (isOpening : opening.piece = .char '(')
    (readable : Readable inside) (closes : Closes inside tail)
    (known : FunctionName.canonical? (Text.cutBeforeName pending).2 = some name) :
    read separator afterOperand pending (opening :: (inside ++ tail)) = (do
      reportUnclosedLiteral Transcript.events inside
      reportUnclosedParenthesis Transcript.events opening tail
      let arguments ← readArguments Transcript.events separator (argumentParts separator inside)
      let more ← read separator true [] tail.tail
      pure (tokenLeaf (Text.cutBeforeName pending).1 ++
        .call name ((Text.cutBeforeName pending).2 ++ enclosedText opening inside tail)
          arguments :: more)) := by
  have opened := char?_char isOpening
  rw [read_opening isOpening readable closes, readOpened]
  simp only [known, reportUnopened, if_pos opened, read, enclosedText]
  rfl

theorem value_read_group (isOpening : opening.piece = .char '(') (readable : Readable inside)
    (closes : Closes inside tail)
    (unknown : FunctionName.canonical? (Text.cutBeforeName pending).2 = none) :
    (read separator afterOperand pending (opening :: (inside ++ tail))).value =
      tokenLeaf pending ++ .group (enclosedText opening inside tail)
        (read separator false [] inside).value :: (read separator true [] tail.tail).value := by
  rw [read_group isOpening readable closes unknown]
  rfl

theorem value_read_call {name : Text} (isOpening : opening.piece = .char '(')
    (readable : Readable inside) (closes : Closes inside tail)
    (known : FunctionName.canonical? (Text.cutBeforeName pending).2 = some name) :
    (read separator afterOperand pending (opening :: (inside ++ tail))).value =
      tokenLeaf (Text.cutBeforeName pending).1 ++
        .call name ((Text.cutBeforeName pending).2 ++ enclosedText opening inside tail)
          ((argumentParts separator inside).map (readArgument separator)) ::
        (read separator true [] tail.tail).value := by
  have arguments : (readArguments Transcript.events separator
      (argumentParts separator inside)).value =
        (argumentParts separator inside).map (readArgument separator) :=
    (readArguments_readable fun _ isPart => readable.of_mem_argumentParts isPart).1
  rw [read_call isOpening readable closes known]
  simp only [Transcript.value_bind, Transcript.value_pure, arguments]

end Steps

/-! ## Operators -/

theorem not_mem_lexeme {c : Char} (op : Operator) (other : c ∈ ['"', '(', ')']) :
    c ∉ op.lexeme := by
  intro met
  obtain ⟨⟨noQuote, noOpening, noClosing, -⟩, -⟩ := Operator.lexeme_spelling met
  simp [noQuote, noOpening, noClosing] at other

/-- An operator that stands by itself is what the marks begin with. -/
theorem lexeme_of_standalone {afterOperand : Bool} {pending : Text} {mark : Mark}
    {rest : List Mark} {op : Operator} (genuine : AllGenuine (mark :: rest))
    (standalone : standaloneOperator? afterOperand pending (mark :: rest) = some op) :
    (mark :: rest.take (op.width - 1)).map piece = op.lexeme.map Piece.char := by
  rw [standaloneOperator?, Option.filter_eq_some_iff] at standalone
  have begins := List.find?_some standalone.1
  rw [List.isPrefixOf_iff_prefix] at begins
  have few : AllGenuine ((mark :: rest).take 2) :=
    genuine.of_subset (List.take_subset _ _)
  have pieces := map_piece_take few (not_mem_lexeme op (by decide)) begins
  rw [List.take_take] at pieces
  rcases Operator.width_eq op with width | width
  · have size : min op.lexeme.length 2 = 1 := by rw [← Operator.width, width]; rfl
    rw [size] at pieces
    rw [← pieces, width]
    rfl
  · have size : min op.lexeme.length 2 = 2 := by rw [← Operator.width, width]; rfl
    rw [size] at pieces
    rw [← pieces, width]
    rfl

theorem cons_take_append_drop (mark : Mark) (rest : List Mark) (n : Nat) :
    (mark :: rest.take n) ++ rest.drop n = mark :: rest :=
  congrArg (mark :: ·) (List.take_append_drop n rest)

/-- Marks that are the characters of an operator are no parentheses. -/
theorem char?_ne_of_lexeme {ms : List Mark} {op : Operator}
    (isLexeme : ms.map piece = op.lexeme.map Piece.char) {c : Char} (other : c ∈ ['"', '(', ')']) :
    ∀ m ∈ ms, m.char? ≠ some c := by
  intro m met isChar
  have isPiece : m.piece ∈ op.lexeme.map Piece.char := isLexeme ▸ List.mem_map_of_mem met
  obtain ⟨d, met, isPiece⟩ := List.mem_map.1 isPiece
  rw [char?, ← isPiece] at isChar
  cases isChar
  exact not_mem_lexeme op other met

theorem noParenthesis_of_lexeme {ms : List Mark} {op : Operator}
    (isLexeme : ms.map piece = op.lexeme.map Piece.char) :
    ∀ m ∈ ms, m.char? ≠ some '(' ∧ m.char? ≠ some ')' := fun m met =>
  ⟨char?_ne_of_lexeme isLexeme (by decide) m met, char?_ne_of_lexeme isLexeme (by decide) m met⟩

/-- Behind an operator the marks stay readable. -/
theorem Readable.drop_operator {mark : Mark} {rest : List Mark} {op : Operator}
    (readable : Readable (mark :: rest))
    (isLexeme : (mark :: rest.take (op.width - 1)).map piece = op.lexeme.map Piece.char) :
    Readable (rest.drop (op.width - 1)) := by
  have others := char?_ne_of_lexeme isLexeme (c := '(') (by decide)
  have behind := readable.tail (others mark List.mem_cons_self)
  rcases Operator.width_eq op with width | width
  · rwa [width]
  · rw [width] at others ⊢
    cases rest with
    | nil => exact behind
    | cons second rest => exact behind.tail (others second (by simp))

/-! ## Induction along the steps -/

theorem drop_isInfix (mark : Mark) (rest : List Mark) (n : Nat) :
    rest.drop n <:+: mark :: rest :=
  ((List.drop_suffix n rest).trans (List.suffix_cons mark rest)).isInfix

theorem inside_isInfix (opening : Mark) (inside tail : List Mark) :
    inside <:+: opening :: (inside ++ tail) :=
  ⟨[opening], tail, rfl⟩

theorem tail_isInfix (opening : Mark) (inside tail : List Mark) :
    tail.tail <:+: opening :: (inside ++ tail) :=
  ((List.tail_suffix tail).trans (List.suffix_append (opening :: inside) tail)).isInfix

/-- To show something of all readable marks, show it of every step. The parts inside a parenthesis
and behind it, and the arguments of a call, are smaller. -/
theorem read_induction (separator : Separator) {motive : Bool → Text → List Mark → Prop}
    (nil : ∀ afterOperand pending, motive afterOperand pending [])
    (literal : ∀ afterOperand pending mark rest text closed, Readable (mark :: rest) →
      mark.piece = .literal text closed → motive afterOperand (pending ++ text) rest →
      motive afterOperand pending (mark :: rest))
    (connector : ∀ afterOperand pending mark rest c, Readable (mark :: rest) →
      mark.piece = .char c → c ≠ '(' → (mark.isLayout && Text.isConnector c) = true →
      motive afterOperand (pending ++ [' ']) rest → motive afterOperand pending (mark :: rest))
    (operator : ∀ afterOperand pending mark rest c op, Readable (mark :: rest) →
      mark.piece = .char c → c ≠ '(' → ¬(mark.isLayout && Text.isConnector c) = true →
      standaloneOperator? afterOperand pending (mark :: rest) = some op →
      (mark :: rest.take (op.width - 1)).map piece = op.lexeme.map Piece.char →
      Readable (rest.drop (op.width - 1)) →
      motive false [] (rest.drop (op.width - 1)) → motive afterOperand pending (mark :: rest))
    (char : ∀ afterOperand pending mark rest c, Readable (mark :: rest) →
      mark.piece = .char c → c ≠ '(' → c ≠ ')' →
      ¬(mark.isLayout && Text.isConnector c) = true →
      standaloneOperator? afterOperand pending (mark :: rest) = none →
      motive afterOperand (pending ++ [c]) rest → motive afterOperand pending (mark :: rest))
    (call : ∀ afterOperand pending opening inside tail name,
      Readable (opening :: (inside ++ tail)) → opening.piece = .char '(' → Readable inside →
      Closes inside tail → Readable tail.tail →
      FunctionName.canonical? (Text.cutBeforeName pending).2 = some name →
      (∀ part ∈ argumentParts separator inside, motive false [] (trimmed part)) →
      motive true [] tail.tail → motive afterOperand pending (opening :: (inside ++ tail)))
    (group : ∀ afterOperand pending opening inside tail,
      Readable (opening :: (inside ++ tail)) → opening.piece = .char '(' → Readable inside →
      Closes inside tail → Readable tail.tail →
      FunctionName.canonical? (Text.cutBeforeName pending).2 = none →
      motive false [] inside → motive true [] tail.tail →
      motive afterOperand pending (opening :: (inside ++ tail)))
    (afterOperand : Bool) (pending : Text) {ms : List Mark} (readable : Readable ms) :
    motive afterOperand pending ms := by
  revert afterOperand pending ms
  -- of the four readers, one reads marks, one what is opened, one arguments, and one the whole
  have all := readSequence.mutual_induct separator
    (fun afterOperand pending ms => Readable ms → motive afterOperand pending ms)
    (fun pending opening inside tail => Readable (opening :: (inside ++ tail)) →
      opening.piece = .char '(' → Readable inside → Closes inside tail →
      ∀ afterOperand, motive afterOperand pending (opening :: (inside ++ tail)))
    (fun parts => (∀ part ∈ parts, Readable part) →
      ∀ part ∈ parts, motive false [] (trimmed part))
    (fun ms => Readable ms → motive false [] ms)
  refine (all ?_ ?_ ?_ ?_ ?_ ?_ ?_ ?_ ?_ ?_ ?_).1
  · exact fun afterOperand pending _ => nil afterOperand pending
  · intro afterOperand pending mark rest text closed isLiteral ih readable
    exact literal _ _ _ _ _ _ readable isLiteral
      (ih (readable.tail (by rw [char?_literal isLiteral]; exact Option.some_ne_none _ ∘ Eq.symm)))
  · intro afterOperand pending mark rest isOpening ih readable
    have opened := char?_char isOpening
    have whole := cutAtClose_whole 0 rest
    have := ih (whole.symm ▸ readable) isOpening (readable_fst_cutAtClose readable.genuine.tail)
      (Closes.of_cut opened readable.enclosed) afterOperand
    rwa [whole] at this
  · intro afterOperand pending mark rest c isChar noOpening isConnector ih readable
    exact connector _ _ _ _ _ readable isChar noOpening isConnector
      (ih (readable.tail (by rw [char?_char isChar]; simpa using noOpening)))
  · intro afterOperand pending mark rest c isChar noOpening noConnector op standalone ih readable
    have isLexeme := lexeme_of_standalone readable.genuine standalone
    have behind := readable.drop_operator isLexeme
    exact operator _ _ _ _ _ _ readable isChar noOpening noConnector standalone isLexeme behind
      (ih behind)
  · intro afterOperand pending mark rest c isChar noOpening noConnector joins ih readable
    have isMark := char?_char isChar
    have noClosing : c ≠ ')' := fun closing =>
      (enclosed_cons.1 readable.enclosed).1 ⟨rfl, closing ▸ isMark⟩
    exact char _ _ _ _ _ readable isChar noOpening noClosing noConnector joins
      (ih (readable.tail (by rw [isMark]; simpa using noOpening)))
  · intro pending opening inside tail name known ihArguments ihTail readable isOpening
      insideReadable closes afterOperand
    have behind : Readable tail.tail := ⟨readable.genuine.tail.of_subset
      (fun m met => List.mem_append_right _ (List.mem_of_mem_tail met)), closes.enclosed_tail⟩
    exact call _ _ _ _ _ _ readable isOpening insideReadable closes behind known
      (ihArguments fun part isPart => insideReadable.of_mem_argumentParts isPart) (ihTail behind)
  · intro pending opening inside tail unknown ihInside ihTail readable isOpening insideReadable
      closes afterOperand
    have behind : Readable tail.tail := ⟨readable.genuine.tail.of_subset
      (fun m met => List.mem_append_right _ (List.mem_of_mem_tail met)), closes.enclosed_tail⟩
    exact group _ _ _ _ _ readable isOpening insideReadable closes behind unknown
      (ihInside insideReadable) (ihTail behind)
  · exact fun _ part met => absurd met List.not_mem_nil
  · intro first parts ihPart ihParts readable part met
    rcases List.mem_cons.1 met with rfl | met
    · exact ihPart (readable _ List.mem_cons_self).trimmed
    · exact ihParts (fun other met => readable other (List.mem_cons_of_mem _ met)) part met
  · intro ms ih readable
    have whole := readable.enclosed.cutAtClose_eq
    rw [whole] at ih
    exact ih readable

end Mark

end SheetFormula
