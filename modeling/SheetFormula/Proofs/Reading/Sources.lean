import SheetFormula.Proofs.Marks.Unplaced
import SheetFormula.Proofs.Reading.Bodies
import SheetFormula.Proofs.Reading.Openings

/-!
# The source texts of nodes

Every group and call of a formula without faults carries the text that it was read from: a stretch
of the body, which read as a formula of its own gives the node again, as long as the separator is
the same (`source_of_node`). The readers do not look at positions (`value_read_unplaced`), and the
marks of the stretch are those that the node was read from.

## Main definitions

* `Mark.Excerpt` — nodes that a stretch of marks gives back
* `Mark.Names` — marks behind a pending token whose name at the end stands in front of them
-/

namespace SheetFormula

open Expression

namespace Mark

variable {separator : Separator} {ms : List Mark}

/-! ## Reading without positions -/

theorem Readable.unplaced (readable : Readable ms) : Readable (ms.map unplaced) := by
  refine ⟨fun m met => ?_, (Alike.enclosed (alike_map char?_unplaced ms)).1.2 readable.enclosed⟩
  obtain ⟨other, within, rfl⟩ := List.mem_map.1 met
  exact (readable.genuine other within).unplaced

theorem Closes.unplaced {inside tail : List Mark} (closes : Closes inside tail) :
    Closes (inside.map unplaced) (tail.map unplaced) := by
  cases closes with
  | never => exact .never
  | @behind closing tail isClosing balanced enclosed =>
    have same : openAfter 0 (inside.map Mark.unplaced) = openAfter 0 inside :=
      (Alike.enclosed (alike_map char?_unplaced inside)).2
    exact .behind isClosing (same.trans balanced)
      ((Alike.enclosed (alike_map char?_unplaced tail)).1.2 enclosed)

theorem standaloneOperator?_unplaced (afterOperand : Bool) (pending : Text) (ms : List Mark) :
    standaloneOperator? afterOperand pending (ms.map unplaced) =
      standaloneOperator? afterOperand pending ms := by
  have next : ∀ n, ((ms.map unplaced).drop n).head?.bind char? = (ms.drop n).head?.bind char? := by
    intro n
    rw [← List.map_drop]
    cases ms.drop n <;> rfl
  simp only [standaloneOperator?, ← List.map_take, sourceText_map_unplaced, next]

/-- Of the places of marks, the readers only tell in faults. -/
theorem value_read_unplaced (afterOperand : Bool) (pending : Text) (readable : Readable ms) :
    (read separator afterOperand pending (ms.map unplaced)).value =
      (read separator afterOperand pending ms).value := by
  refine read_induction separator
    (motive := fun afterOperand pending ms =>
      (read separator afterOperand pending (ms.map unplaced)).value =
        (read separator afterOperand pending ms).value)
    ?nil ?literal ?connector ?operator ?char ?call ?group afterOperand pending readable
  case nil =>
    intro afterOperand pending
    rfl
  case literal =>
    intro afterOperand pending mark rest text closed _ isLiteral ih
    have isUnplaced : mark.unplaced.piece = .literal text closed := isLiteral
    rw [List.map_cons, read_literal isUnplaced, read_literal isLiteral]
    exact ih
  case connector =>
    intro afterOperand pending mark rest c _ isChar noOpening connector ih
    have isUnplaced : mark.unplaced.piece = .char c := isChar
    rw [List.map_cons, read_connector isUnplaced noOpening connector,
      read_connector isChar noOpening connector]
    exact ih
  case operator =>
    intro afterOperand pending mark rest c op _ isChar noOpening noConnector standalone _ _ ih
    have same := standaloneOperator?_unplaced afterOperand pending (mark :: rest)
    rw [standalone] at same
    have isUnplaced : mark.unplaced.piece = .char c := isChar
    rw [List.map_cons, read_operator isUnplaced noOpening noConnector same,
      read_operator isChar noOpening noConnector standalone, ← List.map_drop]
    simp only [Transcript.value_bind, Transcript.value_pure, ih]
  case char =>
    intro afterOperand pending mark rest c _ isChar noOpening _ noConnector joins ih
    have same := standaloneOperator?_unplaced afterOperand pending (mark :: rest)
    rw [joins] at same
    have isUnplaced : mark.unplaced.piece = .char c := isChar
    rw [List.map_cons, read_char isUnplaced noOpening noConnector same,
      read_char isChar noOpening noConnector joins]
    exact ih
  case call =>
    intro afterOperand pending opening inside tail name _ isOpening insideReadable closes _ known
      ihArguments ihTail
    have arguments : (argumentParts separator (inside.map unplaced)).map (readArgument separator) =
        (argumentParts separator inside).map (readArgument separator) := by
      rw [argumentParts_map_unplaced, List.map_map]
      refine List.map_congr_left fun part isPart => ?_
      rw [Function.comp, readArgument, readArgument, trimmed_map_unplaced,
        sourceText_map_unplaced, ihArguments part isPart]
    have text : enclosedText opening.unplaced (inside.map unplaced) (tail.map unplaced) =
        enclosedText opening inside tail := by
      rw [enclosedText, ← List.map_take, ← List.map_cons, ← List.map_append,
        sourceText_map_unplaced, enclosedText]
    have isUnplaced : opening.unplaced.piece = .char '(' := isOpening
    rw [List.map_cons, List.map_append,
      value_read_call isUnplaced insideReadable.unplaced
        closes.unplaced known,
      value_read_call isOpening insideReadable closes known, arguments, text, ← List.map_tail,
      ihTail]
  case group =>
    intro afterOperand pending opening inside tail _ isOpening insideReadable closes _ unknown
      ihInside ihTail
    have text : enclosedText opening.unplaced (inside.map unplaced) (tail.map unplaced) =
        enclosedText opening inside tail := by
      rw [enclosedText, ← List.map_take, ← List.map_cons, ← List.map_append,
        sourceText_map_unplaced, enclosedText]
    have isUnplaced : opening.unplaced.piece = .char '(' := isOpening
    rw [List.map_cons, List.map_append,
      value_read_group isUnplaced insideReadable.unplaced
        closes.unplaced unknown,
      value_read_group isOpening insideReadable closes unknown, text, ← List.map_tail, ihTail,
      ihInside]

/-! ## Names in front of parentheses -/

/-- The marks of the name that the pending token ends in stand in front of the marks. -/
structure Names (whole names : List Mark) (pending : Text) (ms : List Mark) : Prop where
  within : names ++ ms <:+: whole
  spelled : names.map piece = (Text.cutBeforeName pending).2.map Piece.char

variable {whole names rest : List Mark} {pending : Text} {mark : Mark}

theorem Names.fresh {ns : List Mark} (holds : Names whole names pending ms) (within : ns <:+: ms) :
    Names whole [] [] ns :=
  ⟨(within.trans (List.suffix_append names ms).isInfix).trans holds.within, rfl⟩

/-- A character in the token goes on with the name or ends it. -/
theorem Names.char {c : Char} (holds : Names whole names pending (mark :: rest))
    (isChar : mark.piece = .char c) : ∃ names, Names whole names (pending ++ [c]) rest := by
  by_cases isName : Text.isNameChar c = true
  · have all : ∀ d ∈ [c], Text.isNameChar d = true := by simpa using isName
    have longer : (Text.cutBeforeName (pending ++ [c])).2 =
        (Text.cutBeforeName pending).2 ++ [c] := takeEndWhile_append_of_all all pending
    refine ⟨names ++ [mark], ?_, ?_⟩
    · rw [List.append_assoc]
      exact holds.within
    · rw [List.map_append, holds.spelled, longer, List.map_append, List.map_singleton, isChar]
      rfl
  · rw [Bool.not_eq_true] at isName
    refine ⟨[], (holds.fresh (List.suffix_cons mark rest).isInfix).within, ?_⟩
    rw [Text.name_concat_other isName]
    rfl

/-- A blank or a literal in the token ends the name. -/
theorem Names.other {text : Text} (holds : Names whole names pending (mark :: rest))
    (noName : (Text.cutBeforeName (pending ++ text)).2 = []) :
    Names whole [] (pending ++ text) rest :=
  ⟨(holds.fresh (List.suffix_cons mark rest).isInfix).within, by rw [noName]; rfl⟩

/-- In front of a name stands nothing, if nothing else is there. -/
theorem cutBeforeName_of_names {name : Text} (letters : ∀ c ∈ name, Text.isNameChar c = true) :
    Text.cutBeforeName name = ([], name) := by
  have all : takeEndWhile Text.isNameChar ([] ++ name) = [] ++ name :=
    takeEndWhile_append_of_all letters []
  have whole := dropEndWhile_append_takeEndWhile Text.isNameChar name
  rw [List.nil_append] at all
  rw [all] at whole
  exact Prod.ext (List.append_left_eq_self.1 whole) all

/-- A name is read into the pending token. -/
theorem read_names {name : Text} (letters : ∀ c ∈ name, Text.isNameChar c = true)
    (spelled : names.map piece = name.map Piece.char) (afterOperand : Bool) (pending : Text)
    (ms : List Mark) :
    read separator afterOperand pending (names ++ ms) =
      read separator afterOperand (pending ++ name) ms := by
  induction name generalizing names pending with
  | nil => rw [List.map_eq_nil_iff.1 spelled, List.nil_append, List.append_nil]
  | cons c name ih =>
    obtain ⟨mark, rest, rfl, isChar, behind⟩ := List.map_eq_cons_iff.1 spelled
    have isName := letters c List.mem_cons_self
    obtain ⟨-, -, noConnector, -⟩ := Text.isNameChar_spelling isName
    have noOpening : c ≠ '(' := by
      rintro rfl
      revert isName
      decide +kernel
    -- no operator begins with a character of a name
    have joins : standaloneOperator? afterOperand pending (mark :: (rest ++ ms)) = none := by
      have none : Operator.atStart? (sourceText ((mark :: (rest ++ ms)).take 2)) = none := by
        rw [List.take_succ_cons, sourceText_cons, isChar, Operator.atStart?, List.find?_eq_none]
        intro op _ begins
        rw [List.isPrefixOf_iff_prefix] at begins
        have other : ∀ d ∈ op.lexeme.head?, Text.isNameChar d = false := by
          intro d isFirst
          cases op <;> (cases isFirst; decide +kernel)
        obtain ⟨d, lexeme, same⟩ : ∃ d lexeme, op.lexeme = d :: lexeme := by
          cases op <;> exact ⟨_, _, rfl⟩
        rw [same] at begins other
        obtain ⟨first, -⟩ := List.cons_prefix_cons.1 begins
        rw [other c (by simp [first])] at isName
        cases isName
      rw [standaloneOperator?, none]
      rfl
    rw [List.cons_append, read_char isChar noOpening (by simp [noConnector]) joins,
      ih (fun d met => letters d (List.mem_cons_of_mem _ met)) behind, List.append_assoc]
    rfl

/-! ## Groups and calls -/

/-- A node that a stretch of marks gives back: its text is that of the stretch, which begins with
the name or the parenthesis, and ends with a parenthesis. -/
structure Excerpt (separator : Separator) (whole : List Mark) (n : Expression) (ms : List Mark) :
    Prop where
  within : ms <:+: whole
  readable : Readable ms
  source : n.source = sourceText ms
  value : (read separator false [] ms).value = [n]
  first : ∃ m c, ms.head? = some m ∧ m.piece = .char c ∧
    (c = '(' ∨ Text.isNameChar c = true)
  last : ∃ m, ms.getLast? = some m ∧ m.piece = .char ')'

variable {opening closing : Mark} {inside behind : List Mark}

theorem getLast?_parentheses (front inside : List Mark) (opening closing : Mark) :
    (front ++ opening :: (inside ++ [closing])).getLast? = some closing := by
  rw [← List.cons_append, ← List.append_assoc, List.getLast?_concat]

/-- The marks of a group give it back. -/
theorem excerpt_group (genuine : AllGenuine whole)
    (within : opening :: (inside ++ closing :: behind) <:+: whole)
    (isOpening : opening.piece = .char '(') (isClosing : closing.char? = some ')')
    (readable : Readable inside) (balanced : openAfter 0 inside = 0) :
    Excerpt separator whole
      (.group (enclosedText opening inside (closing :: behind))
        (read separator false [] inside).value) (opening :: (inside ++ [closing])) := by
  have front : opening :: (inside ++ [closing]) <:+: whole :=
    List.IsInfix.trans ⟨[], behind, by simp⟩ within
  have closes : Closes inside [closing] := .behind isClosing balanced enclosed_nil
  refine ⟨front, ⟨genuine.of_subset front.subset, ?_⟩, ?_, ?_, ?_, ?_⟩
  · exact (enclosed_parentheses (char?_char isOpening) isClosing readable.enclosed balanced).1
  · rfl
  · rw [value_read_group isOpening readable closes (by decide +kernel), List.tail_cons, read_nil]
    rfl
  · exact ⟨opening, '(', rfl, isOpening, .inl rfl⟩
  · exact ⟨closing, getLast?_parentheses [] inside opening closing, piece_of_char? isClosing⟩

/-- The marks of a call, with those of its name in front, give it back. -/
theorem excerpt_call {name : Text} (genuine : AllGenuine whole)
    (holds : Names whole names pending (opening :: (inside ++ closing :: behind)))
    (isOpening : opening.piece = .char '(') (isClosing : closing.char? = some ')')
    (readable : Readable inside) (balanced : openAfter 0 inside = 0)
    (known : FunctionName.canonical? (Text.cutBeforeName pending).2 = some name) :
    Excerpt separator whole
      (.call name
        ((Text.cutBeforeName pending).2 ++ enclosedText opening inside (closing :: behind))
        ((argumentParts separator inside).map (readArgument separator)))
      (names ++ opening :: (inside ++ [closing])) := by
  have front : names ++ opening :: (inside ++ [closing]) <:+: whole :=
    List.IsInfix.trans ⟨[], behind, by simp⟩ holds.within
  have closes : Closes inside [closing] := .behind isClosing balanced enclosed_nil
  have letters : ∀ c ∈ (Text.cutBeforeName pending).2, Text.isNameChar c = true :=
    all_takeEndWhile pending
  have spelled := holds.spelled
  generalize (Text.cutBeforeName pending).2 = spelling at known letters spelled
  have noParenthesis : ∀ m ∈ names, m.char? ≠ some '(' ∧ m.char? ≠ some ')' := by
    intro m met
    have isPiece : m.piece ∈ spelling.map Piece.char := spelled ▸ List.mem_map_of_mem met
    obtain ⟨c, met, isPiece⟩ := List.mem_map.1 isPiece
    have isName := letters c met
    rw [char?_char isPiece.symm]
    constructor <;> (rintro ⟨⟩; revert isName; decide +kernel)
  refine ⟨front, ⟨genuine.of_subset front.subset, ?_⟩, ?_, ?_, ?_, ?_⟩
  · have flat : Enclosed 0 names ∧ openAfter 0 names = 0 := enclosed_other noParenthesis
    rw [enclosed_append, flat.2]
    exact ⟨flat.1,
      (enclosed_parentheses (char?_char isOpening) isClosing readable.enclosed balanced).1⟩
  · have text : sourceText names = spelling := by
      rw [sourceText, spelled, textOf_chars]
    rw [sourceText_append, text]
    rfl
  · have cut := cutBeforeName_of_names letters
    have known' : FunctionName.canonical? (Text.cutBeforeName spelling).2 = some name := by
      rw [cut]
      exact known
    rw [read_names letters spelled, List.nil_append,
      value_read_call isOpening readable closes known', List.tail_cons, read_nil, cut]
    rfl
  · cases spelling with
    | nil =>
      rw [FunctionName.canonical?_nil] at known
      cases known
    | cons c spelling =>
      obtain ⟨m, others, rfl, isChar, -⟩ := List.map_eq_cons_iff.1 spelled
      exact ⟨m, c, rfl, isChar, .inr (letters c List.mem_cons_self)⟩
  · exact ⟨closing, getLast?_parentheses names inside opening closing, piece_of_char? isClosing⟩

end Mark

namespace Expression

theorem nodesOfEach_map {α : Type} (f : α → Expression) (xs : List α) :
    nodesOfEach (xs.map f) = xs.flatMap fun x => (f x).nodes := by
  induction xs with
  | nil => rw [List.map_nil, nodesOfEach, List.flatMap_nil]
  | cons x xs ih => rw [List.map_cons, nodesOfEach, ih, List.flatMap_cons]

/-- An argument of one part is this part, and otherwise no group and no call itself. -/
theorem mem_nodes_argumentOf {text : Text} {parts : List Expression} {n : Expression}
    (isNode : n ∈ nodes (argumentOf text parts)) (opens : n.opening?.isSome = true) :
    n ∈ nodesOfEach parts := by
  unfold argumentOf at isNode
  split at isNode
  · rw [nodes_leaf, List.mem_singleton] at isNode
    rw [isNode] at opens
    cases opens
  · rw [nodesOfEach]
    exact List.mem_append_left _ isNode
  · rw [nodes] at isNode
    rcases List.mem_cons.1 isNode with rfl | isNode
    · cases opens
    · exact isNode

theorem opening?_of_mem_tokenLeaf {pending : Text} {n : Expression}
    (isNode : n ∈ nodesOfEach (tokenLeaf pending)) : n.opening? = none := by
  unfold tokenLeaf at isNode
  split at isNode
  · rw [nodesOfEach] at isNode
    cases isNode
  · rw [nodesOfEach, nodesOfEach, nodes_leaf, List.append_nil, List.mem_singleton] at isNode
    rw [isNode]
    rfl

end Expression

namespace Mark

variable {separator : Separator} {whole names ms : List Mark}

/-- Every group and call that is read from balanced marks is an excerpt of the marks around them. -/
theorem excerpt_of_read (genuine : AllGenuine whole) (complete : AllComplete whole)
    (afterOperand : Bool) (pending : Text) (readable : Readable ms) (balanced : openAfter 0 ms = 0)
    (holds : Names whole names pending ms) :
    ∀ n ∈ nodesOfEach (read separator afterOperand pending ms).value, n.opening?.isSome = true →
      ∃ ns, Excerpt separator whole n ns := by
  revert names balanced
  refine read_induction separator
    (motive := fun afterOperand pending ms => ∀ {names}, openAfter 0 ms = 0 →
      Names whole names pending ms →
      ∀ n ∈ nodesOfEach (read separator afterOperand pending ms).value,
        n.opening?.isSome = true → ∃ ns, Excerpt separator whole n ns)
    ?nil ?literal ?connector ?operator ?char ?call ?group afterOperand pending readable
  case nil =>
    intro afterOperand pending names _ _ n isNode opens
    rw [read_nil] at isNode
    rw [opening?_of_mem_tokenLeaf isNode] at opens
    cases opens
  case literal =>
    intro afterOperand pending mark rest text closed _ isLiteral ih names balanced holds
    have noChar := char?_literal isLiteral
    have isMark : mark ∈ whole := holds.within.subset (by simp)
    obtain ⟨init, rfl⟩ := List.getLast?_eq_some_iff.1
      ((complete mark isMark).literal text closed isLiteral).2.2
    rw [openAfter_cons, depthAfter_other (by simp [noChar]) (by simp [noChar])] at balanced
    rw [read_literal isLiteral]
    refine ih balanced (holds.other ?_)
    rw [← List.append_assoc]
    exact Text.name_concat_other (by decide +kernel) _
  case connector =>
    intro afterOperand pending mark rest c _ isChar noOpening connector ih names balanced holds
    have isMark := char?_char isChar
    rw [read_connector isChar noOpening connector]
    rw [Bool.and_eq_true] at connector
    have noClosing := Text.ne_closing_of_isConnector connector.2
    rw [openAfter_cons, depthAfter_other (by simpa [isMark] using noOpening)
      (by simpa [isMark] using noClosing)] at balanced
    exact ih balanced (holds.other (Text.name_concat_other (by decide +kernel) _))
  case operator =>
    intro afterOperand pending mark rest c op _ isChar noOpening noConnector standalone isLexeme _
      ih names balanced holds n isNode opens
    have cut := (cons_take_append_drop mark rest (op.width - 1)).symm
    have others := noParenthesis_of_lexeme isLexeme
    rw [cut, openAfter_append, (enclosed_other others).2] at balanced
    rw [read_operator isChar noOpening noConnector standalone, Transcript.value_bind,
      Transcript.value_pure, nodesOfEach_append, nodesOfEach, nodes] at isNode
    simp only [List.mem_append, List.mem_singleton] at isNode
    rcases isNode with isNode | rfl | isNode
    · rw [opening?_of_mem_tokenLeaf isNode] at opens
      cases opens
    · cases opens
    · exact ih balanced (holds.fresh (drop_isInfix mark rest _)) n isNode opens
  case char =>
    intro afterOperand pending mark rest c _ isChar noOpening noClosing noConnector joins ih names
      balanced holds
    have isMark := char?_char isChar
    obtain ⟨longer, holds⟩ := holds.char isChar
    rw [openAfter_cons, depthAfter_other (by simpa [isMark] using noOpening)
      (by simpa [isMark] using noClosing)] at balanced
    rw [read_char isChar noOpening noConnector joins]
    exact ih balanced holds
  case call =>
    intro afterOperand pending opening inside tail name readable isOpening insideReadable closes _
      known ihArguments ihTail names balanced holds n isNode opens
    obtain ⟨closing, behind, rfl, isClosing, insideBalanced, behindBalanced⟩ :=
      closes.exists_closing (char?_char isOpening) insideReadable.enclosed balanced
    have inner := holds.fresh (inside_isInfix opening inside (closing :: behind))
    have outer := holds.fresh (tail_isInfix opening inside (closing :: behind))
    rw [value_read_call isOpening insideReadable closes known, nodesOfEach_append, nodesOfEach,
      nodes] at isNode
    simp only [List.mem_append, List.mem_cons] at isNode
    rcases isNode with isNode | (rfl | isNode) | isNode
    · rw [opening?_of_mem_tokenLeaf isNode] at opens
      cases opens
    · exact ⟨_, excerpt_call genuine holds isOpening isClosing insideReadable insideBalanced known⟩
    · -- the node belongs to one of the arguments, which are read without the layout around them
      obtain ⟨part, isPart, isNode⟩ : ∃ part ∈ argumentParts separator inside,
          n ∈ (readArgument separator part).nodes := by
        rw [nodesOfEach_map] at isNode
        exact List.mem_flatMap.1 isNode
      have partReadable := insideReadable.of_mem_argumentParts isPart
      have partInfix := isInfix_of_mem_argumentParts insideReadable.enclosed isPart
      have partHolds := inner.fresh partInfix
      have partComplete : AllComplete part :=
        complete.of_subset (List.IsInfix.subset partHolds.within)
      refine ihArguments part isPart ?_ (partHolds.fresh partComplete.trimmed_isInfix) n
        (mem_nodes_argumentOf isNode opens) opens
      rw [(partReadable.enclosed.trimmed partReadable.genuine).2]
      exact balanced_of_mem_argumentParts insideReadable.enclosed insideBalanced isPart
    · exact ihTail behindBalanced outer n isNode opens
  case group =>
    intro afterOperand pending opening inside tail readable isOpening insideReadable closes _
      unknown ihInside ihTail names balanced holds n isNode opens
    obtain ⟨closing, behind, rfl, isClosing, insideBalanced, behindBalanced⟩ :=
      closes.exists_closing (char?_char isOpening) insideReadable.enclosed balanced
    have inner := holds.fresh (inside_isInfix opening inside (closing :: behind))
    have outer := holds.fresh (tail_isInfix opening inside (closing :: behind))
    rw [value_read_group isOpening insideReadable closes unknown, nodesOfEach_append, nodesOfEach,
      nodes] at isNode
    simp only [List.mem_append, List.mem_cons] at isNode
    rcases isNode with isNode | (rfl | isNode) | isNode
    · rw [opening?_of_mem_tokenLeaf isNode] at opens
      cases opens
    · exact ⟨_, excerpt_group genuine (holds.fresh (List.infix_refl _)).within isOpening isClosing
        insideReadable insideBalanced⟩
    · exact ihInside insideBalanced inner n isNode opens
    · exact ihTail behindBalanced outer n isNode opens

end Mark

/-! ## Formulas -/

/-- An excerpt, entered as a formula with the same separator, is the node that it was read for. -/
theorem Mark.Excerpt.tree {separator : Separator} {t : Text} {n : Expression} {ms : List Mark}
    (excerpt : Mark.Excerpt separator (marks t) n ms) (closed : t.LiteralsClosed)
    (same : Separator.ofText n.source = separator) :
    (Formula.ofText n.source).tree = .plain n.source [n] := by
  obtain ⟨within, readable, source, value, ⟨m, c, isFirst, isChar, begins⟩, last, isLast,
    isClosing⟩ := excerpt
  obtain ⟨rest, rfl⟩ := List.head?_eq_some_iff.1 isFirst
  have spelling : c ≠ '=' ∧ Text.isBlank c = false ∧ Text.isConnector c = false := by
    rcases begins with rfl | isName
    · decide +kernel
    · obtain ⟨-, -, noConnector, noBlank⟩ := Text.isNameChar_spelling isName
      refine ⟨?_, noBlank, noConnector⟩
      rintro rfl
      revert isName
      decide +kernel
  have head : n.source.head? = some c := by
    rw [source, sourceText_cons, isChar]
    rfl
  have ends : n.source.getLast? = some ')' := by
    obtain ⟨init, whole⟩ := List.getLast?_eq_some_iff.1 isLast
    rw [source, whole, sourceText_append, sourceText_cons, isClosing, sourceText_nil,
      List.append_nil, Piece.text, List.getLast?_concat]
  have body : (Formula.ofText n.source).body = n.source := by
    refine Formula.body_ofText ?_ ?_ ?_
    · simp [head, spelling.1]
    · rintro d isHead
      rw [head] at isHead
      obtain rfl := Option.some.inj isHead
      exact spelling.2.1
    · rintro d isLast
      rw [ends] at isLast
      obtain rfl := Option.some.inj isLast
      decide
  have unplaced : (marks n.source).map Mark.unplaced = (m :: rest).map Mark.unplaced := by
    rw [source]
    exact unplaced_marks closed within isChar spelling.2.1 spelling.2.2
  -- the marks of the text are those of the excerpt but for their places
  have enclosed : Enclosed 0 (marks n.source) := by
    refine (Alike.enclosed (alike_map char?_unplaced _)).1.1 ?_
    rw [unplaced]
    exact (Alike.enclosed (alike_map char?_unplaced _)).1.2 readable.enclosed
  have again : (read separator false [] (marks n.source)).value = [n] := by
    rw [← value_read_unplaced false [] ⟨allGenuine_marks n.source, enclosed⟩, unplaced,
      value_read_unplaced false [] readable, value]
  rw [Formula.tree_parts, Formula.separator, body, same, enclosed.cutAtClose_eq, again, strayLeaf,
    List.append_nil]

/-- The source text of a group or call of an accepted formula is a stretch of its body, and, entered
as a formula with the same separator, it is this group or call and nothing else. -/
theorem source_of_node (t : Text) {tree n : Expression}
    (accepted : (Formula.ofText t).tree? = .ok tree) (isNode : n ∈ tree.nodes)
    (opens : n.opening?.isSome = true) :
    n.source <:+: (Formula.ofText t).body ∧
      (Separator.ofText n.source = (Formula.ofText t).separator →
        (Formula.ofText n.source).tree = .plain n.source [n]) := by
  generalize Formula.ofText t = f at accepted
  obtain ⟨rfl, closed, enclosed, balanced⟩ := f.paired_of_tree? accepted
  have readable : Mark.Readable (marks f.body) := ⟨Mark.allGenuine_marks f.body, enclosed⟩
  have complete := Mark.complete_place closed 0 false
  rw [f.tree_parts, enclosed.cutAtClose_eq, Mark.strayLeaf, List.append_nil, nodes] at isNode
  rcases List.mem_cons.1 isNode with rfl | isNode
  · cases opens
  · have start : Mark.Names (marks f.body) [] [] (marks f.body) := ⟨List.infix_refl _, rfl⟩
    obtain ⟨ms, excerpt⟩ := Mark.excerpt_of_read readable.genuine complete false [] readable
      balanced start n isNode opens
    refine ⟨?_, excerpt.tree closed⟩
    obtain ⟨front, behind, whole⟩ := excerpt.within
    refine ⟨Mark.sourceText front, Mark.sourceText behind, ?_⟩
    rw [excerpt.source, ← Mark.sourceText_append, ← Mark.sourceText_append, whole,
      Mark.sourceText_marks]

/-- An argument that is a call itself, behind a range and with a quoted parenthesis. -/
theorem source_of_node_sum : ∃ tree n,
    (Formula.ofText "=if(a1:b2; sum (1);sum( \")\" ; (2)))".toList).tree? = .ok tree ∧
      n ∈ tree.nodes ∧ n.opening?.isSome = true ∧ n.source = "sum( \")\" ; (2))".toList ∧
      (Formula.ofText n.source).tree = .plain n.source [n] := by
  have found : ((Formula.ofText "=if(a1:b2; sum (1);sum( \")\" ; (2)))".toList).tree?.toOption.any
      fun tree => tree.nodes.any fun n =>
        n.opening?.isSome && n.source == "sum( \")\" ; (2))".toList) = true := by
    decide +kernel
  cases accepted : (Formula.ofText "=if(a1:b2; sum (1);sum( \")\" ; (2)))".toList).tree? with
  | error fault => rw [accepted] at found; cases found
  | ok tree =>
    rw [accepted] at found
    obtain ⟨n, isNode, shown⟩ := List.any_eq_true.1 found
    rw [Bool.and_eq_true, beq_iff_eq] at shown
    refine ⟨tree, n, rfl, isNode, shown.1, shown.2, ?_⟩
    refine (source_of_node _ accepted isNode shown.1).2 ?_
    rw [shown.2]
    decide +kernel

end SheetFormula
