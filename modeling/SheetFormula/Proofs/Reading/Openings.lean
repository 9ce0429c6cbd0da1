import SheetFormula.Proofs.Marks.Inside
import SheetFormula.Proofs.Marks.Placed
import SheetFormula.Proofs.Reading.Nodes

/-!
# Parentheses and nodes

Every parenthesis of a formula without faults opens a group or the argument list of a call, and the
nodes of the tree show them in the order of the text. What a parenthesis opens is told by the text
in front of it and by the separators directly inside it (`Text.openings`); the readers, which cut
the text at separators and forget what stands before an operator, find the same
(`openings_tree`).

## Main definitions

* `Opening`, `Expression.openings` — groups and calls, and those of a tree
* `Text.openings` — the parentheses of a text
* `Mark.openingsFrom` — the same, with the arguments counted by the cuts of the readers
-/

namespace SheetFormula

/-- What a parenthesis opens. -/
inductive Opening where
  | group
  | call (name : Text) (arguments : Nat)
  deriving DecidableEq

namespace Expression

/-- What the parenthesis of a node opens, if it has one. -/
def opening? : Expression → Option Opening
  | group _ _ => some .group
  | call name _ arguments => some (.call name arguments.length)
  | _ => none

/-- The parentheses of trees, each node before its parts. -/
def openingsOfEach (es : List Expression) : List Opening :=
  (nodesOfEach es).filterMap opening?

/-- The parentheses of a tree, each node before its parts. -/
def openings (e : Expression) : List Opening :=
  e.nodes.filterMap opening?

/-- The names of all calls of a tree with the numbers of their arguments, each call before those in
its arguments. -/
def calls (e : Expression) : List (Text × Nat) :=
  e.openings.filterMap fun
    | .call name arguments => some (name, arguments)
    | .group => none

end Expression

namespace Text

/-- What a parenthesis of a text opens: the argument list of a call if the longest run of name
characters in front of it is a known name, and a group otherwise. -/
def openingAt (separator : Separator) (t : Text) (position : Nat) : Opening :=
  match FunctionName.canonical? (cutBeforeName (t.take position)).2 with
  | some name =>
    .call name (Mark.argumentCount separator (Mark.directlyInside position [] (marks t)))
  | none => .group

/-- What the parentheses of a text outside literals open, in order. -/
def openings (separator : Separator) (t : Text) : List Opening :=
  ((marks t).filter (·.char? = some '(')).map fun m => openingAt separator t m.position

/-! ## The name at the end of a text -/

variable {s t : Text} {c : Char}

theorem name_concat_other (noName : isNameChar c = false) (t : Text) :
    (cutBeforeName (t ++ [c])).2 = [] :=
  takeEndWhile_concat_of_not noName t

/-- The name at the end depends on nothing in front of the name before it. -/
theorem name_append (same : (cutBeforeName s).2 = (cutBeforeName t).2) (u : Text) :
    (cutBeforeName (s ++ u)).2 = (cutBeforeName (t ++ u)).2 := by
  induction u generalizing s t with
  | nil => rwa [List.append_nil, List.append_nil]
  | cons c u ih =>
    have step : (cutBeforeName (s ++ [c])).2 = (cutBeforeName (t ++ [c])).2 := by
      by_cases isName : isNameChar c = true
      · have all : ∀ d ∈ [c], isNameChar d = true := by simpa using isName
        show takeEndWhile isNameChar (s ++ [c]) = takeEndWhile isNameChar (t ++ [c])
        rw [takeEndWhile_append_of_all all, takeEndWhile_append_of_all all]
        exact congrArg (· ++ [c]) same
      · rw [Bool.not_eq_true] at isName
        rw [name_concat_other isName, name_concat_other isName]
    have later := ih step
    rwa [List.append_assoc, List.append_assoc] at later

/-- No name reaches back over an operator. -/
theorem name_append_lexeme (t : Text) (op : Operator) :
    (cutBeforeName (t ++ op.lexeme)).2 = [] := by
  cases op <;> exact (takeEndWhile_append_of_not (by decide +kernel) t _).trans (by decide +kernel)

end Text

open Expression

namespace Mark

/-- What the parentheses among marks open, behind a text. -/
def openingsFrom (separator : Separator) (front : Text) : List Mark → List Opening
  | [] => []
  | m :: ms =>
    if m.char? = some '(' then
      (match FunctionName.canonical? (Text.cutBeforeName front).2 with
        | some name => .call name (argumentParts separator (cutAtClose 0 ms).1).length
        | none => .group) :: openingsFrom separator (front ++ m.piece.text) ms
    else openingsFrom separator (front ++ m.piece.text) ms

variable {separator : Separator} {front : Text} {m : Mark} {ms ns : List Mark}

theorem openingsFrom_cons_other (noOpening : m.char? ≠ some '(') :
    openingsFrom separator front (m :: ms) =
      openingsFrom separator (front ++ m.piece.text) ms := by
  rw [openingsFrom, if_neg noOpening]

/-- Marks without an opening parenthesis are passed over. -/
theorem openingsFrom_append_other (noOpening : ∀ m ∈ ms, m.char? ≠ some '(') :
    openingsFrom separator front (ms ++ ns) =
      openingsFrom separator (front ++ sourceText ms) ns := by
  induction ms generalizing front with
  | nil => rw [sourceText_nil, List.append_nil, List.nil_append]
  | cons m ms ih =>
    rw [List.cons_append, openingsFrom_cons_other (noOpening m List.mem_cons_self),
      ih fun other met => noOpening other (List.mem_cons_of_mem _ met), sourceText_cons,
      List.append_assoc]

theorem openingsFrom_other (noOpening : ∀ m ∈ ms, m.char? ≠ some '(') :
    openingsFrom separator front ms = [] := by
  have whole : openingsFrom separator front (ms ++ []) = [] := openingsFrom_append_other noOpening
  rwa [List.append_nil] at whole

/-- What follows a parenthesis that is closed does not change what stands inside it. -/
theorem fst_cutAtClose_append {depth : Nat} (closed : ¬Enclosed depth ms) :
    (cutAtClose depth (ms ++ ns)).1 = (cutAtClose depth ms).1 := by
  induction ms generalizing depth with
  | nil => exact absurd enclosed_nil closed
  | cons m ms ih =>
    rw [List.cons_append, cutAtClose, cutAtClose]
    split
    · rfl
    · next met =>
      have later : ¬Enclosed (m.depthAfter depth) ms :=
        fun enclosed => closed (enclosed_cons.2 ⟨met, enclosed⟩)
      exact congrArg (m :: ·) (ih later)

/-- A parenthesis in front of balanced marks is closed among them, or it would be left open. -/
theorem not_enclosed_of_openAfter {depth : Nat} (balanced : openAfter (depth + 1) ms = 0) :
    ¬Enclosed 0 ms := by
  intro enclosed
  have left := (enclosed.add (depth + 1)).2
  rw [Nat.zero_add, balanced] at left
  omega

/-- Balanced marks open what they open wherever they end. -/
theorem openingsFrom_append {depth : Nat} (balanced : openAfter depth ms = 0) :
    openingsFrom separator front (ms ++ ns) =
      openingsFrom separator front ms ++ openingsFrom separator (front ++ sourceText ms) ns := by
  induction ms generalizing front depth with
  | nil => rw [sourceText_nil, List.append_nil]; rfl
  | cons m ms ih =>
    rw [openAfter_cons] at balanced
    rw [List.cons_append, openingsFrom, openingsFrom, ih balanced, sourceText_cons,
      List.append_assoc]
    split
    · next isOpening =>
      rw [depthAfter_opening isOpening] at balanced
      rw [fst_cutAtClose_append (not_enclosed_of_openAfter balanced), List.cons_append]
    · rfl

/-- Balanced marks in parentheses are opened first, and followed by what stands behind them. -/
theorem openingsFrom_opening {opening closing : Mark} {inside tail : List Mark}
    (isOpening : opening.piece = .char '(') (isClosing : closing.char? = some ')')
    (enclosed : Enclosed 0 inside) (balanced : openAfter 0 inside = 0) :
    openingsFrom separator front (opening :: (inside ++ closing :: tail)) =
      (match FunctionName.canonical? (Text.cutBeforeName front).2 with
        | some name => .call name (argumentParts separator inside).length
        | none => .group) ::
      (openingsFrom separator (front ++ ['(']) inside ++
        openingsFrom separator (front ++ ['('] ++ sourceText inside ++ [')']) tail) := by
  have opened := char?_char isOpening
  have noOpening : closing.char? ≠ some '(' := by rw [isClosing]; decide
  have text : closing.piece.text = [')'] := by rw [piece_of_char? isClosing]; rfl
  rw [openingsFrom, if_pos opened, cutAtClose_append enclosed balanced isClosing, isOpening,
    openingsFrom_append balanced, openingsFrom_cons_other noOpening, text]
  rfl

/-! ## Parts of an argument list -/

theorem name_append_layout (genuine : AllGenuine ms) (layout : ∀ m ∈ ms, m.isLayout = true)
    (noName : (Text.cutBeforeName front).2 = []) :
    (Text.cutBeforeName (front ++ sourceText ms)).2 = [] := by
  induction ms generalizing front with
  | nil => rwa [sourceText_nil, List.append_nil]
  | cons m ms ih =>
    obtain ⟨c, isChar, kind⟩ := genuine.head.of_layout (layout m List.mem_cons_self)
    have other : Text.isNameChar c = false :=
      kind.elim Text.isNameChar_of_isBlank Text.isNameChar_of_isConnector
    rw [sourceText_cons, isChar, ← List.append_assoc]
    exact ih genuine.tail (fun other met => layout other (List.mem_cons_of_mem _ met))
      (Text.name_concat_other other front)

theorem noOpening_layout (genuine : AllGenuine ms) (layout : ∀ m ∈ ms, m.isLayout = true) :
    ∀ m ∈ ms, m.char? ≠ some '(' := fun m met =>
  (genuine m met).char?_ne_of_layout (layout m met) (by decide) (by decide)

/-- Layout in front of balanced marks and behind them opens nothing, and ends every name. -/
theorem openingsFrom_padded {lead trail : List Mark} (balanced : openAfter 0 ms = 0)
    (genuine : AllGenuine (lead ++ ms ++ trail)) (leading : ∀ m ∈ lead, m.isLayout = true)
    (trailing : ∀ m ∈ trail, m.isLayout = true) (noName : (Text.cutBeforeName front).2 = []) :
    ∃ behind, (Text.cutBeforeName behind).2 = [] ∧
      openingsFrom separator front (lead ++ ms ++ trail) = openingsFrom separator behind ms := by
  have parts := allGenuine_append.1 genuine
  have isLead := (allGenuine_append.1 parts.1).1
  refine ⟨front ++ sourceText lead, name_append_layout isLead leading noName, ?_⟩
  rw [List.append_assoc, openingsFrom_append_other (noOpening_layout isLead leading),
    openingsFrom_append balanced, openingsFrom_other (noOpening_layout parts.2 trailing),
    List.append_nil]

/-- Trimming takes no parenthesis away. -/
theorem openingsFrom_trimmed (genuine : AllGenuine ms) (complete : AllComplete ms)
    (enclosed : Enclosed 0 ms) (balanced : openAfter 0 ms = 0)
    (noName : (Text.cutBeforeName front).2 = []) :
    ∃ behind, (Text.cutBeforeName behind).2 = [] ∧
      openingsFrom separator front ms = openingsFrom separator behind (trimmed ms) := by
  obtain ⟨lead, trail, whole, leading, trailing⟩ := trimEnds_split isLayout ms
  have coreBalanced : openAfter 0 (trimEnds isLayout ms) = 0 := by
    rw [← complete.trimmed_eq, (enclosed.trimmed genuine).2, balanced]
  rw [complete.trimmed_eq]
  conv => enter [1, behind, 2, 1]; rw [whole]
  exact openingsFrom_padded coreBalanced (whole ▸ genuine) leading trailing noName

/-- What the parts between separators open, one after the other. -/
theorem Divides.openingsFrom {depth : Nat} {parts : List (List Mark)}
    {opens : List Mark → List Opening} (divides : Divides separator depth ms parts)
    (atStart : depth = 0) (balanced : openAfter 0 ms = 0)
    (noName : (Text.cutBeforeName front).2 = [])
    (each : ∀ part ∈ parts, openAfter 0 part = 0 → ∀ behind, (Text.cutBeforeName behind).2 = [] →
      openingsFrom separator behind part = opens part) :
    openingsFrom separator front ms = parts.flatMap opens := by
  induction divides generalizing front with
  | @last depth ms _ _ =>
    rw [List.flatMap_cons, List.flatMap_nil, List.append_nil]
    exact each ms List.mem_cons_self balanced front noName
  | @next depth part mark ms parts _ partBalanced _ isSeparator rest ih =>
    subst atStart
    have restBalanced : openAfter 0 ms = 0 := by
      rw [openAfter_append, partBalanced, openAfter_cons, depthAfter_separator isSeparator]
        at balanced
      exact balanced
    have noOpening : mark.char? ≠ some '(' := by
      rw [isSeparator]
      cases separator <;> decide
    have text : mark.piece.text = [separator.char] := by rw [piece_of_char? isSeparator]; rfl
    have other : Text.isNameChar separator.char = false := by
      cases separator <;> decide +kernel
    rw [List.flatMap_cons, openingsFrom_append partBalanced, openingsFrom_cons_other noOpening,
      text, each part List.mem_cons_self partBalanced front noName]
    refine congrArg _ (ih rfl restBalanced (Text.name_concat_other other _) ?_)
    exact fun other met => each other (List.mem_cons_of_mem _ met)

/-- An argument list opens what its arguments open; what is left out as blank opens nothing. -/
theorem openingsFrom_argumentParts {opens : List Mark → List Opening} (readable : Readable ms)
    (balanced : openAfter 0 ms = 0) (noName : (Text.cutBeforeName front).2 = [])
    (each : ∀ part ∈ argumentParts separator ms, openAfter 0 part = 0 →
      ∀ behind, (Text.cutBeforeName behind).2 = [] →
      openingsFrom separator behind part = opens part) :
    openingsFrom separator front ms = (argumentParts separator ms).flatMap opens := by
  rcases argumentParts_eq_nil_or_divides separator readable.enclosed with ⟨none, layout⟩ | divides
  · rw [none, List.flatMap_nil]
    exact openingsFrom_other (noOpening_layout readable.genuine layout)
  · exact divides.openingsFrom rfl balanced noName each

end Mark

/-! ## Reading -/

namespace Expression

theorem openingsOfEach_append (es fs : List Expression) :
    openingsOfEach (es ++ fs) = openingsOfEach es ++ openingsOfEach fs := by
  rw [openingsOfEach, nodesOfEach_append, List.filterMap_append]
  rfl

theorem openingsOfEach_cons (e : Expression) (es : List Expression) :
    openingsOfEach (e :: es) = e.openings ++ openingsOfEach es := by
  rw [openingsOfEach, nodesOfEach, List.filterMap_append]
  rfl

theorem openings_plain (source : Text) (parts : List Expression) :
    (plain source parts).openings = openingsOfEach parts := by
  rw [openings, nodes]
  rfl

theorem openings_group (source : Text) (parts : List Expression) :
    (group source parts).openings = .group :: openingsOfEach parts := by
  rw [openings, nodes]
  rfl

theorem openings_call (name source : Text) (arguments : List Expression) :
    (call name source arguments).openings =
      .call name arguments.length :: openingsOfEach arguments := by
  rw [openings, nodes]
  rfl

theorem openingsOfEach_nil : openingsOfEach [] = [] := by
  rw [openingsOfEach, nodesOfEach]
  rfl

theorem openingsOfEach_tokenLeaf (pending : Text) : openingsOfEach (tokenLeaf pending) = [] := by
  unfold tokenLeaf
  split
  · exact openingsOfEach_nil
  · rw [openingsOfEach_cons, leaf, openings_plain, openingsOfEach_nil, List.append_nil]

theorem openings_argumentOf (text : Text) (parts : List Expression) :
    (argumentOf text parts).openings = openingsOfEach parts := by
  unfold argumentOf
  split
  · exact openings_plain text []
  · rw [openingsOfEach_cons, openingsOfEach_nil, List.append_nil]
  · exact openings_plain text parts

theorem openingsOfEach_map {α : Type} (f : α → Expression) (xs : List α) :
    openingsOfEach (xs.map f) = xs.flatMap fun x => (f x).openings := by
  induction xs with
  | nil => exact openingsOfEach_nil
  | cons x xs ih => rw [List.map_cons, openingsOfEach_cons, ih, List.flatMap_cons]

end Expression

namespace Mark

variable {separator : Separator} {ms : List Mark}

/-- Balanced marks are closed where they are read behind a parenthesis. -/
theorem Closes.exists_closing {opening : Mark} {inside tail : List Mark}
    (closes : Closes inside tail) (isOpening : opening.char? = some '(')
    (enclosed : Enclosed 0 inside) (balanced : openAfter 0 (opening :: (inside ++ tail)) = 0) :
    ∃ closing behind, tail = closing :: behind ∧ closing.char? = some ')' ∧
      openAfter 0 inside = 0 ∧ openAfter 0 behind = 0 := by
  rw [openAfter_cons, depthAfter_opening isOpening, openAfter_append] at balanced
  have depth := (enclosed.add 1).2
  rw [depth] at balanced
  cases closes with
  | never =>
    rw [openAfter_nil] at balanced
    omega
  | @behind closing tail isClosing insideBalanced _ =>
    rw [insideBalanced, openAfter_cons, depthAfter_closing isClosing] at balanced
    exact ⟨closing, tail, rfl, isClosing, insideBalanced, balanced⟩

/-- The readers find what the parentheses among balanced marks open, as long as the pending token
ends in the name that stands in front of the marks. -/
theorem openings_read (afterOperand : Bool) (pending : Text) (readable : Readable ms)
    (complete : AllComplete ms) (balanced : openAfter 0 ms = 0) (front : Text)
    (sameName : (Text.cutBeforeName pending).2 = (Text.cutBeforeName front).2) :
    openingsOfEach (read separator afterOperand pending ms).value =
      openingsFrom separator front ms := by
  revert complete balanced front sameName
  refine read_induction separator
    (motive := fun afterOperand pending ms => AllComplete ms → openAfter 0 ms = 0 →
      ∀ front, (Text.cutBeforeName pending).2 = (Text.cutBeforeName front).2 →
      openingsOfEach (read separator afterOperand pending ms).value =
        openingsFrom separator front ms)
    ?nil ?literal ?connector ?operator ?char ?call ?group afterOperand pending readable
  case nil =>
    intro afterOperand pending _ _ front _
    rw [read_nil]
    exact openingsOfEach_tokenLeaf pending
  case literal =>
    intro afterOperand pending mark rest text closed _ isLiteral ih complete balanced front sameName
    have noChar := char?_literal isLiteral
    rw [openAfter_cons, depthAfter_other (by simp [noChar]) (by simp [noChar])] at balanced
    rw [read_literal isLiteral, Transcript.value_bind, openingsFrom_cons_other (by simp [noChar]),
      isLiteral]
    exact ih complete.tail balanced _ (Text.name_append sameName text)
  case connector =>
    intro afterOperand pending mark rest c _ isChar noOpening connector ih complete balanced front
      sameName
    have isMark := char?_char isChar
    rw [read_connector isChar noOpening connector]
    rw [Bool.and_eq_true] at connector
    have noClosing := Text.ne_closing_of_isConnector connector.2
    have noName := Text.isNameChar_of_isConnector connector.2
    rw [openAfter_cons, depthAfter_other (by simpa [isMark] using noOpening)
      (by simpa [isMark] using noClosing)] at balanced
    rw [openingsFrom_cons_other (by simpa [isMark] using noOpening), isChar]
    -- the blank in the token and the connector in the text both end the name
    refine ih complete.tail balanced _ ?_
    rw [Text.name_concat_other (by decide +kernel), Piece.text, Text.name_concat_other noName]
  case operator =>
    intro afterOperand pending mark rest c op _ isChar noOpening noConnector standalone isLexeme _
      ih complete balanced front _
    have whole := (cons_take_append_drop mark rest (op.width - 1)).symm
    have others := noParenthesis_of_lexeme isLexeme
    have text : sourceText (mark :: rest.take (op.width - 1)) = op.lexeme := by
      rw [sourceText, isLexeme, textOf_chars]
    rw [whole, openAfter_append, (enclosed_other others).2] at balanced
    rw [read_operator isChar noOpening noConnector standalone, Transcript.value_bind,
      Transcript.value_pure, openingsOfEach_append, openingsOfEach_tokenLeaf, openingsOfEach_cons,
      whole, openingsFrom_append_other fun m met => (others m met).1, text]
    have behind : AllComplete (rest.drop (op.width - 1)) := complete.tail.of_subset
      (List.drop_subset _ _)
    -- the new token is empty, and no name reaches back over the operator
    exact ih behind balanced _ (Text.name_append_lexeme front op).symm
  case char =>
    intro afterOperand pending mark rest c _ isChar noOpening noClosing noConnector joins ih
      complete balanced front sameName
    have isMark := char?_char isChar
    rw [openAfter_cons, depthAfter_other (by simpa [isMark] using noOpening)
      (by simpa [isMark] using noClosing)] at balanced
    rw [read_char isChar noOpening noConnector joins,
      openingsFrom_cons_other (by simpa [isMark] using noOpening), isChar]
    exact ih complete.tail balanced _ (Text.name_append sameName [c])
  case call =>
    intro afterOperand pending opening inside tail name readable isOpening insideReadable closes _
      known ihArguments ihTail complete balanced front sameName
    have opened := char?_char isOpening
    obtain ⟨closing, behind, rfl, isClosing, insideBalanced, behindBalanced⟩ :=
      closes.exists_closing opened insideReadable.enclosed balanced
    have insideComplete : AllComplete inside := complete.of_subset fun m met => by simp [met]
    have behindComplete : AllComplete behind := complete.of_subset fun m met => by simp [met]
    -- every argument is read behind a separator or the parenthesis, where no name can end
    have arguments : openingsFrom separator (front ++ ['(']) inside =
        (argumentParts separator inside).flatMap fun part =>
          (readArgument separator part).openings := by
      refine openingsFrom_argumentParts insideReadable insideBalanced
        (Text.name_concat_other (by decide +kernel) front)
        fun part isPart partBalanced start noName => ?_
      have partReadable := insideReadable.of_mem_argumentParts isPart
      have partComplete := insideComplete.of_subset
        (subset_of_mem_argumentParts insideReadable.enclosed isPart)
      obtain ⟨first, firstNoName, same⟩ := openingsFrom_trimmed partReadable.genuine partComplete
        partReadable.enclosed partBalanced noName
      rw [same, readArgument, openings_argumentOf]
      refine (ihArguments part isPart ?_ ?_ first firstNoName.symm).symm
      · exact partComplete.of_subset partComplete.trimmed_isInfix.subset
      · rw [(partReadable.enclosed.trimmed partReadable.genuine).2, partBalanced]
    have later := ihTail behindComplete behindBalanced
      (front ++ ['('] ++ sourceText inside ++ [')'])
      (Text.name_concat_other (by decide +kernel) _).symm
    rw [value_read_call isOpening insideReadable closes known, openingsOfEach_append,
      openingsOfEach_tokenLeaf, openingsOfEach_cons, openings_call, openingsOfEach_map, later,
      openingsFrom_opening isOpening isClosing insideReadable.enclosed insideBalanced, ← sameName,
      known, arguments, List.length_map]
    rfl
  case group =>
    intro afterOperand pending opening inside tail readable isOpening insideReadable closes _
      unknown ihInside ihTail complete balanced front sameName
    have opened := char?_char isOpening
    obtain ⟨closing, behind, rfl, isClosing, insideBalanced, behindBalanced⟩ :=
      closes.exists_closing opened insideReadable.enclosed balanced
    have insideComplete : AllComplete inside := complete.of_subset fun m met => by simp [met]
    have behindComplete : AllComplete behind := complete.of_subset fun m met => by simp [met]
    have inner := ihInside insideComplete insideBalanced (front ++ ['('])
      (Text.name_concat_other (by decide +kernel) _).symm
    have later := ihTail behindComplete behindBalanced
      (front ++ ['('] ++ sourceText inside ++ [')'])
      (Text.name_concat_other (by decide +kernel) _).symm
    rw [value_read_group isOpening insideReadable closes unknown, openingsOfEach_append,
      openingsOfEach_tokenLeaf, openingsOfEach_cons, openings_group, inner, later,
      openingsFrom_opening isOpening isClosing insideReadable.enclosed insideBalanced, ← sameName,
      unknown]
    rfl

end Mark

/-! ## Formulas -/

/-- The position of a mark is the length of the text in front of it. -/
theorem Mark.position_place {ps : List Piece} {position : Nat} {indented : Bool} {front : List Mark}
    {m : Mark} {behind : List Mark} (cut : place position indented ps = front ++ m :: behind) :
    m.position = position + (sourceText front).length := by
  induction ps generalizing position indented front with
  | nil => simp [place] at cut
  | cons p ps ih =>
    rw [place] at cut
    cases front with
    | nil =>
      obtain ⟨rfl, -⟩ := List.cons.inj cut
      rfl
    | cons first front =>
      obtain ⟨rfl, rest⟩ := List.cons.inj cut
      rw [ih rest, sourceText_cons, List.length_append, Nat.add_assoc]

theorem Mark.sourceText_marks (t : Text) : sourceText (marks t) = t := by
  rw [sourceText, map_piece_marks, textOf_pieces]

section Marks

variable {t : Text} {front rest : List Mark} {m : Mark}

theorem Mark.take_position (whole : marks t = front ++ m :: rest) :
    t.take m.position = sourceText front := by
  have position := position_place whole
  have parts := sourceText_marks t
  rw [whole, sourceText_append] at parts
  rw [position, Nat.zero_add, ← parts, List.take_left]

/-- The marks directly inside a parenthesis of a text count the arguments that the readers find
behind it. -/
theorem Mark.argumentCount_marks (separator : Separator) (whole : marks t = front ++ m :: rest)
    (isOpening : m.char? = some '(') (balanced : openAfter 0 (marks t) = 0) :
    argumentCount separator (directlyInside m.position [] (marks t)) =
      (argumentParts separator (cutAtClose 0 rest).1).length := by
  rw [whole, openAfter_append, openAfter_cons, depthAfter_opening isOpening] at balanced
  obtain ⟨closing, tail, cut⟩ : ∃ closing tail, (cutAtClose 0 rest).2 = closing :: tail :=
    List.exists_cons_of_ne_nil (not_enclosed_of_openAfter balanced)
  obtain ⟨isClosing, insideBalanced⟩ := head_snd_cutAtClose cut
  have enclosed := enclosed_fst_cutAtClose 0 rest
  have within : (cutAtClose 0 rest).1 ⊆ marks t := fun n met => by
    simp [whole, fst_cutAtClose_subset 0 rest met]
  have parts : marks t = front ++ m :: ((cutAtClose 0 rest).1 ++ closing :: tail) := by
    rw [whole, ← cut, cutAtClose_whole]
  have increasing : (marks t).Pairwise fun m n => m.position < n.position :=
    (pairwise_position_place (fun p => text_ne_nil_of_mem_pieces (t := t)) 0 false).1
  rw [parts] at increasing
  have behind := (List.pairwise_cons.1 (List.pairwise_append.1 increasing).2.1).1
  rw [parts, directlyInside_opening increasing isOpening isClosing enclosed insideBalanced]
  refine argumentCount_directlyInside ((allGenuine_marks t).of_subset within) enclosed
    fun n met => ?_
  exact (Nat.ne_of_lt (behind n (by simp [met]))).symm

/-- What the readers find among the marks of a text is what the text tells of its parentheses. -/
theorem Mark.openingsFrom_marks (separator : Separator) (t : Text)
    (balanced : openAfter 0 (marks t) = 0) (front : List Mark) {behind : List Mark}
    (whole : marks t = front ++ behind) :
    openingsFrom separator (sourceText front) behind =
      (behind.filter (·.char? = some '(')).map fun m => t.openingAt separator m.position := by
  induction behind generalizing front with
  | nil => rfl
  | cons m rest ih =>
    have later := ih (front ++ [m]) (by rw [whole, List.append_assoc]; rfl)
    rw [sourceText_append, sourceText_cons, sourceText_nil, List.append_nil] at later
    by_cases isOpening : m.char? = some '('
    · rw [openingsFrom, if_pos isOpening, later,
        List.filter_cons_of_pos (by simpa using isOpening), List.map_cons, Text.openingAt,
        take_position whole, argumentCount_marks separator whole isOpening balanced]
    · rw [openingsFrom_cons_other isOpening, later,
        List.filter_cons_of_neg (by simpa using isOpening)]

end Marks

/-- An accepted formula has its literals closed and its parentheses paired. -/
theorem Formula.paired_of_tree? (f : Formula) {tree : Expression} (accepted : f.tree? = .ok tree) :
    tree = f.tree ∧ f.body.LiteralsClosed ∧ Mark.Enclosed 0 (marks f.body) ∧
      Mark.openAfter 0 (marks f.body) = 0 := by
  rw [f.tree?_eq_first_fault] at accepted
  have faultless : f.faults = [] ∧ tree = f.tree := by
    cases faults : f.faults with
    | nil => rw [faults] at accepted; exact ⟨rfl, (Except.ok.inj accepted).symm⟩
    | cons fault others => rw [faults] at accepted; cases accepted
  have none : f.body.scanFaults 0 [] = [] := List.nil_perm.1 (faultless.1 ▸ f.perm_faults)
  have closed := ((Text.scanFaults_eq_nil_iff _ _ _).1 none).1
  rw [← scan_place f.body 0 [] false, ← marks, Mark.scan, List.length_nil] at none
  refine ⟨faultless.2, closed, ?_⟩
  cases cut : (Mark.cutAtClose 0 (marks f.body)).2 with
  | nil =>
    rw [cut] at none
    have stack : Mark.leftOpen [] (marks f.body) = [] :=
      List.map_eq_nil_iff.1 (List.append_eq_nil_iff.1 none).2
    refine ⟨cut, ?_⟩
    rw [← List.length_nil (α := Nat), ← Mark.length_leftOpen, stack]
  | cons stray tail => rw [cut] at none; cases none

/-- The groups and calls of an accepted formula are, in this order, the parentheses of its body: a
call for each that stands behind a known name, with as many arguments as its separators tell, and a
group for each other. -/
theorem openings_tree (t : Text) {tree : Expression}
    (accepted : (Formula.ofText t).tree? = .ok tree) :
    tree.openings = (Formula.ofText t).body.openings (Formula.ofText t).separator := by
  generalize Formula.ofText t = f at accepted
  obtain ⟨rfl, closed, enclosed, balanced⟩ := f.paired_of_tree? accepted
  have readable : Mark.Readable (marks f.body) := ⟨Mark.allGenuine_marks f.body, enclosed⟩
  have complete := Mark.complete_place closed 0 false
  have parts : f.tree.openings =
      openingsOfEach (Mark.read f.separator false [] (marks f.body)).value := by
    rw [f.tree_parts, openings_plain, enclosed.cutAtClose_eq, Mark.strayLeaf, List.append_nil]
  rw [parts, Mark.openings_read false [] readable complete balanced [] rfl]
  exact Mark.openingsFrom_marks f.separator f.body balanced [] rfl

/-- Calls with nested separators, with quoted ones and without arguments, and a group. -/
theorem openings_tree_nested : ∃ tree,
    (Formula.ofText "=if(sum(a1;b2)>(1);pi( );\"(;\")".toList).tree? = .ok tree ∧
      tree.openings = [.call "IF".toList 3, .call "SUM".toList 2, .group, .call "PI".toList 0] := by
  have isOk : (Formula.ofText "=if(sum(a1;b2)>(1);pi( );\"(;\")".toList).tree?.isOk = true := by
    decide +kernel
  cases accepted : (Formula.ofText "=if(sum(a1;b2)>(1);pi( );\"(;\")".toList).tree? with
  | error fault => rw [accepted] at isOk; cases isOk
  | ok tree =>
    refine ⟨tree, rfl, ?_⟩
    rw [openings_tree _ accepted]
    decide +kernel

end SheetFormula
