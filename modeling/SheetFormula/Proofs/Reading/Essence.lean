import SheetFormula.Proofs.Marks.Placed
import SheetFormula.Proofs.Reading.Nodes

/-!
# The essence of what is read

Reading loses no text but layout, and invents none but the `)` of parentheses that the formula
leaves open: the essence of the parts is that of the marks (`essence_read`), and the tree of a
formula has the essence of its body (`Formula.essence_tree`). What the readers need to know about
the marks is that they continue the pending token (`Mark.Continues`).

## Main definitions

* `Expression.essence` — the essence of the text that stands for a node
* `Expression.IsTidy` — what holds of every node that is read from tidy marks
* `Mark.closedEssence` — the essence of marks with every parenthesis closed at the end
-/

namespace SheetFormula

namespace Expression

mutual

/-- The essence of the text that stands for a node. -/
def essence : Expression → Text
  | plain source parts => if parts.isEmpty then source.essence else (essences parts).flatten
  | group _ parts => ['('] ++ (essences parts).flatten ++ [')']
  | call name _ arguments => name ++ ['('] ++ Text.joined [','] (essences arguments) ++ [')']
  | operator op => op.lexeme

/-- The essence of each of the nodes. -/
def essences : List Expression → List Text
  | [] => []
  | e :: es => essence e :: essences es

end

/-- A leaf is tidy, and a call has a known name. -/
def IsTidy : Expression → Prop :=
  Sound Text.Tidy

theorem essences_eq_map (es : List Expression) : essences es = es.map essence := by
  induction es with
  | nil => rw [essences, List.map_nil]
  | cons e es ih => rw [essences, ih, List.map_cons]

theorem essences_append (es fs : List Expression) :
    essences (es ++ fs) = essences es ++ essences fs := by
  rw [essences_eq_map, essences_eq_map, essences_eq_map, List.map_append]

end Expression

open Expression

/-! ## Names and tokens -/

theorem essence_name {t : Text} (names : ∀ c ∈ t, Text.isNameChar c = true) :
    t.Tidy ∧ t.essence = Text.uppercase t := by
  induction t with
  | nil => exact ⟨Text.tidy_nil, Text.essence_nil⟩
  | cons c t ih =>
    obtain ⟨tidy, same⟩ := ih fun d met => names d (List.mem_cons_of_mem _ met)
    obtain ⟨noQuote, noSemicolon, noConnector, noBlank⟩ :=
      Text.isNameChar_spelling (names c List.mem_cons_self)
    obtain ⟨first, single⟩ := Text.tidy_singleton noQuote noConnector
    have cut : c :: t = [c] ++ t := rfl
    rw [cut, Text.tidy_append first, Text.essence_append first tidy, same, single, noBlank,
      Text.essential, if_neg noSemicolon]
    exact ⟨tidy, rfl⟩

/-- The token in front of a parenthesis is cut into the token in front of the name, and the name. -/
theorem essence_cutBeforeName {pending name : Text} (firm : pending.Firm)
    (known : FunctionName.canonical? (Text.cutBeforeName pending).2 = some name) :
    (Text.cutBeforeName pending).1.Firm ∧
      pending.essence = (Text.cutBeforeName pending).1.essence ++ name := by
  have whole : (Text.cutBeforeName pending).1 ++ (Text.cutBeforeName pending).2 = pending :=
    dropEndWhile_append_takeEndWhile Text.isNameChar pending
  have names : ∀ c ∈ (Text.cutBeforeName pending).2, Text.isNameChar c = true :=
    all_takeEndWhile pending
  obtain ⟨nameTidy, same⟩ := essence_name names
  have front : (Text.cutBeforeName pending).1.Firm :=
    Text.Firm.left (whole.symm ▸ firm) fun c met => (Text.isNameChar_spelling (names c met)).1
  obtain ⟨-, both⟩ := front.append nameTidy.closed nameTidy.noConnector.steady
  refine ⟨front, ?_⟩
  rw [whole, nameTidy.noConnector.essenceFrom_eq _ false, ← Text.essence_eq, same,
    (FunctionName.canonical?_eq_some.1 known).2] at both
  exact both

theorem essence_tokenLeaf {pending : Text} (firm : pending.Firm) :
    (essences (tokenLeaf pending)).flatten = pending.essence := by
  obtain ⟨-, same⟩ := firm.settled_trim
  unfold tokenLeaf
  split
  · next empty =>
    rw [List.isEmpty_iff] at empty
    rw [← same, empty, Text.essence_nil, essences]
    rfl
  · rw [essences, essences, leaf, essence, ← same]
    simp

/-! ## Marks -/

namespace Mark

/-- The essence of marks, with a `)` at the end for every parenthesis they leave open. -/
def closedEssence (ms : List Mark) : Text :=
  ms.flatMap Mark.essence ++ List.replicate (openAfter 0 ms) ')'

variable {m : Mark} {ms ns : List Mark}

/-- Marks that are no parentheses add their own essence. -/
theorem closedEssence_cons (noOpening : m.char? ≠ some '(') (noClosing : m.char? ≠ some ')') :
    closedEssence (m :: ms) = m.essence ++ closedEssence ms := by
  rw [closedEssence, openAfter_cons, depthAfter_other noOpening noClosing, List.flatMap_cons,
    List.append_assoc]
  rfl

/-- A character that is never layout has its capital form as essence. -/
theorem essence_char {c : Char} (genuine : m.Genuine) (isChar : m.char? = some c)
    (noBlank : Text.isBlank c = false) (noConnector : Text.isConnector c = false) :
    m.essence = Text.essential c := by
  have noLayout : m.isLayout = false := by
    by_contra layout
    rw [Bool.not_eq_false] at layout
    exact genuine.char?_ne_of_layout layout noBlank noConnector isChar
  rw [Mark.essence, piece_of_char? isChar]
  exact if_neg (by simp [noLayout])

theorem closedEssence_trimmed (readable : Readable ms) (complete : AllComplete ms) :
    closedEssence (trimmed ms) = closedEssence ms := by
  rw [closedEssence, closedEssence, flatMap_essence_trimmed readable.genuine complete,
    (readable.enclosed.trimmed readable.genuine).2]

/-- A parenthesis encloses the essence of its marks, whether the formula closes it or not. -/
theorem closedEssence_opening {opening : Mark} {inside tail : List Mark}
    (genuine : AllGenuine (opening :: (inside ++ tail))) (isOpening : opening.char? = some '(')
    (readable : Readable inside) (closes : Closes inside tail) :
    closedEssence (opening :: (inside ++ tail)) =
      '(' :: (closedEssence inside ++ ')' :: closedEssence tail.tail) := by
  have opens : opening.depthAfter 0 = 1 := depthAfter_opening isOpening
  have same : opening.essence = ['('] :=
    essence_char genuine.head isOpening (by decide) (by decide)
  have depth : openAfter 1 inside = openAfter 0 inside + 1 :=
    Nat.zero_add 1 ▸ (readable.enclosed.add 1).2
  unfold closedEssence
  rw [List.flatMap_cons, same, openAfter_cons, opens, List.flatMap_append, openAfter_append, depth]
  cases closes with
  -- the `)` of this parenthesis is missing too, behind those that are missing inside it
  | never => exact congrArg ('(' :: ·) (by simp [List.replicate_succ'])
  | @behind closing tail isClosing balanced _ =>
    have same : closing.essence = [')'] :=
      essence_char (genuine closing (by simp)) isClosing (by decide) (by decide)
    rw [balanced, List.flatMap_cons, same, openAfter_cons, depthAfter_closing isClosing]
    exact congrArg ('(' :: ·) (by simp)

/-- Between commas, the parts of an argument list have the essence of the list. -/
theorem Divides.closedEssence {separator : Separator} {depth : Nat} {parts : List (List Mark)}
    (divides : Divides separator depth ms parts) (atStart : depth = 0) (genuine : AllGenuine ms) :
    closedEssence ms = Text.joined [','] (parts.map Mark.closedEssence) := by
  induction divides with
  | last => rfl
  | @next depth part mark ms parts _ balanced _ isSeparator rest ih =>
    subst atStart
    have same : mark.essence = [','] := by
      have char : mark.essence = Text.essential separator.char :=
        essence_char (genuine mark (by simp)) isSeparator (by cases separator <;> decide)
          (by cases separator <;> decide)
      rw [char]
      cases separator <;> decide
    have later := ih rfl (genuine.of_subset fun m met => by simp [met])
    -- only the last part leaves parentheses open, so all that are missing stand at the end
    obtain ⟨first, others, rfl⟩ : ∃ first others, parts = first :: others := by
      cases rest with
      | last => exact ⟨_, _, rfl⟩
      | next => exact ⟨_, _, rfl⟩
    rw [List.map_cons, List.map_cons, Text.joined, ← List.map_cons, ← later]
    · unfold Mark.closedEssence
      rw [balanced, openAfter_append, balanced, openAfter_cons, depthAfter_separator isSeparator,
        List.flatMap_append, List.flatMap_cons, same]
      simp
    · simp

theorem closedEssence_argumentParts (separator : Separator) (readable : Readable ms) :
    closedEssence ms =
      Text.joined [','] ((argumentParts separator ms).map closedEssence) := by
  rcases argumentParts_eq_nil_or_divides separator readable.enclosed with ⟨none, layout⟩ | divides
  · have nothing : ms.flatMap Mark.essence = [] := by
      rw [List.flatMap_eq_nil_iff]
      exact fun m met => essence_of_layout (readable.genuine m met) (layout m met)
    rw [none, closedEssence, nothing, (enclosed_layout readable.genuine layout).2]
    rfl
  · exact divides.closedEssence rfl readable.genuine

/-- An operator is its own essence. -/
theorem closedEssence_lexeme {op : Operator} (isLexeme : ms.map piece = op.lexeme.map Piece.char)
    (genuine : AllGenuine ms) : closedEssence (ms ++ ns) = op.lexeme ++ closedEssence ns := by
  have spelling : ∀ c ∈ op.lexeme, _ := fun c met => Operator.lexeme_spelling met
  have essential : ∀ c ∈ op.lexeme, _ := fun c met => Text.essential_of_mem_lexeme met
  generalize op.lexeme = lexeme at isLexeme spelling essential
  induction lexeme generalizing ms with
  | nil => rw [List.map_eq_nil_iff.1 isLexeme]; rfl
  | cons c lexeme ih =>
    obtain ⟨m, rest, rfl, isPiece, behind⟩ := List.map_eq_cons_iff.1 isLexeme
    have isChar := char?_char isPiece
    obtain ⟨⟨-, noOpening, noClosing, -⟩, noConnector, noBlank, -⟩ := spelling c List.mem_cons_self
    rw [List.cons_append, closedEssence_cons (by simpa [isChar] using noOpening)
      (by simpa [isChar] using noClosing), essence_char genuine.head isChar noBlank noConnector,
      essential c List.mem_cons_self, ih genuine.tail behind
        (fun d met => spelling d (List.mem_cons_of_mem _ met))
        fun d met => essential d (List.mem_cons_of_mem _ met)]
    rfl

/-! ## Parts in a row -/

theorem essence_argumentOf {text : Text} {parts : List Expression}
    (alone : parts = [] → text.essence = []) :
    (argumentOf text parts).essence = (essences parts).flatten := by
  unfold argumentOf
  split
  · rw [leaf, Expression.essence]
    exact alone rfl
  · simp [essences]
  · next parts several _ =>
    rw [Expression.essence, if_neg (by simpa using several)]

/-- Reading loses no text but layout, and closes every parenthesis. -/
theorem essence_read {separator : Separator} (afterOperand : Bool) (pending : Text)
    (readable : Readable ms) (continues : Continues pending ms) :
    (essences (read separator afterOperand pending ms).value).flatten =
      pending.essence ++ closedEssence ms := by
  revert continues
  refine read_induction separator
    (motive := fun afterOperand pending ms => Continues pending ms →
      (essences (read separator afterOperand pending ms).value).flatten =
        pending.essence ++ closedEssence ms)
    ?nil ?literal ?connector ?operator ?char ?call ?group afterOperand pending readable
  case nil =>
    intro afterOperand pending continues
    rw [read_nil, Transcript.value_pure, essence_tokenLeaf continues.firm, closedEssence]
    simp
  case literal =>
    intro afterOperand pending mark rest text closed _ isLiteral ih continues
    have noChar := char?_literal isLiteral
    obtain ⟨behind, joined⟩ := continues.literal isLiteral
    rw [read_literal isLiteral, Transcript.value_bind, ih behind, joined, List.append_assoc,
      closedEssence_cons (by simp [noChar]) (by simp [noChar])]
  case connector =>
    intro afterOperand pending mark rest c _ isChar noOpening connector ih continues
    have isMark := char?_char isChar
    rw [read_connector isChar noOpening connector]
    rw [Bool.and_eq_true] at connector
    obtain ⟨behind, joined⟩ := continues.connector isChar connector.1 connector.2
    have noClosing := Text.ne_closing_of_isConnector connector.2
    rw [ih behind, joined, List.append_assoc, closedEssence_cons
      (by simpa [isMark] using noOpening) (by simpa [isMark] using noClosing)]
  case operator =>
    intro afterOperand pending mark rest c op _ isChar noOpening noConnector standalone isLexeme _
      ih continues
    have whole := (cons_take_append_drop mark rest (op.width - 1)).symm
    have behind := drop_isInfix mark rest (op.width - 1)
    rw [read_operator isChar noOpening noConnector standalone, Transcript.value_bind,
      Transcript.value_pure, essences_append, List.flatten_append, essence_tokenLeaf continues.firm,
      essences, List.flatten_cons, ih (continues.fresh behind), Text.essence_nil, whole,
      closedEssence_lexeme isLexeme (continues.genuine.of_subset fun m met => ?_),
      Expression.essence]
    · rw [List.nil_append]
    · exact whole ▸ List.mem_append_left _ met
  case char =>
    intro afterOperand pending mark rest c _ isChar noOpening noClosing noConnector joins ih
      continues
    have isMark := char?_char isChar
    obtain ⟨behind, joined⟩ := continues.char isChar noConnector
    rw [read_char isChar noOpening noConnector joins, ih behind, joined, List.append_assoc,
      closedEssence_cons (by simpa [isMark] using noOpening) (by simpa [isMark] using noClosing)]
  case call =>
    intro afterOperand pending opening inside tail name readable isOpening insideReadable closes _
      known ihArguments ihTail continues
    have opened := char?_char isOpening
    obtain ⟨frontFirm, front⟩ := essence_cutBeforeName continues.firm known
    have insideContinues := continues.fresh (inside_isInfix opening inside tail)
    have tailContinues := continues.fresh (tail_isInfix opening inside tail)
    have argument : ∀ part ∈ argumentParts separator inside,
        (readArgument separator part).essence = closedEssence part := by
      intro part isPart
      have partReadable := insideReadable.of_mem_argumentParts isPart
      have partContinues : Continues [] part := insideContinues.fresh
        (isInfix_of_mem_argumentParts insideReadable.enclosed isPart)
      have parts := ihArguments part isPart partContinues.trimmed
      rw [Text.essence_nil, List.nil_append,
        closedEssence_trimmed partReadable partContinues.complete] at parts
      rw [readArgument, essence_argumentOf, parts]
      -- an argument of which nothing is read is a leaf with its text, and this is layout only
      intro none
      rw [none, essences, List.flatten_nil] at parts
      rw [partContinues.essence_sourceText_trimmed, (List.append_eq_nil_iff.1 parts.symm).1]
    have same : (argumentParts separator inside).map (Expression.essence ∘ readArgument separator) =
        (argumentParts separator inside).map closedEssence := List.map_congr_left argument
    rw [value_read_call isOpening insideReadable closes known, essences_append,
      List.flatten_append, essence_tokenLeaf frontFirm, essences, List.flatten_cons,
      Expression.essence, ihTail tailContinues, essences_eq_map, List.map_map, Text.essence_nil,
      front, closedEssence_opening readable.genuine opened insideReadable closes,
      closedEssence_argumentParts separator insideReadable, same]
    simp
  case group =>
    intro afterOperand pending opening inside tail readable isOpening insideReadable closes _
      unknown ihInside ihTail continues
    have opened := char?_char isOpening
    have insideContinues := continues.fresh (inside_isInfix opening inside tail)
    have tailContinues := continues.fresh (tail_isInfix opening inside tail)
    rw [value_read_group isOpening insideReadable closes unknown, essences_append,
      List.flatten_append, essence_tokenLeaf continues.firm, essences, List.flatten_cons,
      Expression.essence, ihInside insideContinues, ihTail tailContinues, Text.essence_nil,
      closedEssence_opening readable.genuine opened insideReadable closes]
    simp

/-! ## Tidy marks -/

/-- Tidy marks behind a tidy token. -/
structure TidyFrom (pending : Text) (ms : List Mark) : Prop where
  genuine : AllGenuine ms
  marks : ∀ m ∈ ms, m.Tidy
  token : pending.Tidy

theorem TidyFrom.of_subset {pending : Text} (tidy : TidyFrom pending ms) (within : ns ⊆ ms) :
    TidyFrom [] ns :=
  ⟨tidy.genuine.of_subset within, fun m met => tidy.marks m (within met), Text.tidy_nil⟩

/-- A text joins the token behind which the first mark stands no longer. -/
theorem TidyFrom.append {pending text : Text} (tidy : TidyFrom pending (m :: ms))
    (other : text.Tidy) : TidyFrom (pending ++ text) ms :=
  ⟨tidy.genuine.tail, fun n met => tidy.marks n (List.mem_cons_of_mem _ met),
    (Text.tidy_append tidy.token).2 other⟩

theorem TidyFrom.trimmed {pending : Text} (tidy : TidyFrom pending ms) :
    TidyFrom [] (trimmed ms) :=
  tidy.of_subset (trimmed_isInfix fun m met => (tidy.marks m met).closed).subset

/-- Leaves that are read from tidy marks are tidy. -/
theorem tokenInvariant_tidyFrom : TokenInvariant TidyFrom Text.Tidy where
  literal tidy isLiteral := by
    have text := (tidy.marks _ List.mem_cons_self).text
    rw [isLiteral] at text
    exact tidy.append text
  connector tidy isChar layout connector :=
    tidy.append (Text.tidy_blanks (by simp; decide)).1
  char tidy isChar noConnector := by
    have text := (tidy.marks _ List.mem_cons_self).text
    rw [isChar] at text
    exact tidy.append text
  fresh tidy within := tidy.of_subset within.subset
  trimmed := TidyFrom.trimmed
  name := by
    intro pending ms name tidy known
    have whole : (Text.cutBeforeName pending).1 ++ (Text.cutBeforeName pending).2 = pending :=
      dropEndWhile_append_takeEndWhile Text.isNameChar pending
    have names : ∀ c ∈ (Text.cutBeforeName pending).2, Text.isNameChar c = true :=
      all_takeEndWhile pending
    refine ⟨fun m met => absurd met List.not_mem_nil, fun m met => absurd met List.not_mem_nil, ?_⟩
    exact Text.Tidy.left (whole.symm ▸ tidy.token)
      fun c met => (Text.isNameChar_spelling (names c met)).1
  token tidy := tidy.token.trim.1
  argument tidy := (tidy_sourceText tidy.trimmed.marks).1

end Mark

/-! ## Formulas -/

/-- Whether the fault is a parenthesis without its `)`. -/
def Fault.isUnclosedParenthesis : Fault → Bool
  | unclosedParenthesis _ => true
  | _ => false

namespace Formula

open Mark

variable (f : Formula)

/-- The parentheses without a `)` are those left open; a `)` without a partner hides them. -/
theorem countP_faults (closed : f.body.LiteralsClosed) :
    f.faults.countP Fault.isUnclosedParenthesis = openAfter 0 (cutAtClose 0 (marks f.body)).1 := by
  rw [f.perm_faults.countP_eq, ← scan_place f.body 0 [] false, ← marks, scan, List.length_nil]
  have whole := cutAtClose_whole 0 (marks f.body)
  cases cut : (cutAtClose 0 (marks f.body)).2 with
  | nil =>
    have literals : unclosedLiterals (marks f.body) = [] := by
      rw [unclosedLiterals, List.map_eq_nil_iff, List.filter_eq_nil_iff]
      intro m met
      have isPiece : m.piece ∈ pieces f.body := map_piece_marks f.body ▸ List.mem_map_of_mem met
      simpa [isUnclosed] using closed m.piece isPiece
    rw [cut, List.append_nil] at whole
    have all : ∀ n ∈ leftOpen [] (marks f.body),
        (Fault.isUnclosedParenthesis ∘ .unclosedParenthesis) n = true := fun _ _ => rfl
    rw [whole, faultsOf, literals, List.map_nil, List.nil_append, List.countP_map,
      List.countP_eq_length.2 all, length_leftOpen, List.length_nil]
  | cons stray tail =>
    rw [(head_snd_cutAtClose cut).2]
    rfl

/-- A `)` without a partner stands alone among the faults of closed literals. -/
theorem countP_of_stray (closed : f.body.LiteralsClosed) {position : Nat}
    (stray : .unmatchedCloseParenthesis position ∈ f.faults) :
    f.faults.countP Fault.isUnclosedParenthesis = 0 := by
  have found := f.perm_faults.mem_iff.1 stray
  rw [← scan_place f.body 0 [] false, ← marks, scan, List.length_nil] at found
  rw [f.countP_faults closed]
  cases cut : (cutAtClose 0 (marks f.body)).2 with
  | nil => simp [cut, faultsOf] at found
  | cons stray tail => exact (head_snd_cutAtClose cut).2

/-- The marks of a body with closed literals continue an empty token. -/
theorem continues_marks (closed : f.body.LiteralsClosed) : Continues [] (marks f.body) :=
  ⟨allGenuine_marks f.body, complete_place closed 0 false, Text.firm_nil, false, id,
    placed_place 0 false _⟩

/-- The tree of a formula has the essence of its body, and a `)` for every parenthesis that the
formula leaves open. -/
theorem essence_tree (closed : f.body.LiteralsClosed) :
    f.tree.essence =
      f.body.essence ++ List.replicate (f.faults.countP Fault.isUnclosedParenthesis) ')' := by
  have genuine := allGenuine_marks f.body
  have continues := f.continues_marks closed
  have whole := cutAtClose_whole 0 (marks f.body)
  have body : f.body.essence = (cutAtClose 0 (marks f.body)).1.flatMap Mark.essence ++
      (cutAtClose 0 (marks f.body)).2.flatMap Mark.essence := by
    rw [← List.flatMap_append, whole]
    rfl
  have front : (essences (read f.separator false [] _).value).flatten = _ :=
    essence_read false [] (readable_fst_cutAtClose genuine)
      (continues.fresh ⟨[], (cutAtClose 0 (marks f.body)).2, whole⟩)
  have behind : (essences (strayLeaf (cutAtClose 0 (marks f.body)).2)).flatten =
      (cutAtClose 0 (marks f.body)).2.flatMap Mark.essence := by
    have within : (cutAtClose 0 (marks f.body)).2 <:+: marks f.body := ⟨_, [], by simpa using whole⟩
    cases cut : (cutAtClose 0 (marks f.body)).2 with
    | nil => rw [strayLeaf, essences]; rfl
    | cons stray tail =>
      rw [cut] at within
      rw [strayLeaf, essences, essences, leaf, Expression.essence,
        (continues.fresh within).essence_sourceText_trimmed]
      simp
  have parts : (essences ((read f.separator false [] (cutAtClose 0 (marks f.body)).1).value ++
      strayLeaf (cutAtClose 0 (marks f.body)).2)).flatten =
        f.body.essence ++ List.replicate (openAfter 0 (cutAtClose 0 (marks f.body)).1) ')' := by
    rw [essences_append, List.flatten_append, front, behind, body, closedEssence]
    cases cut : (cutAtClose 0 (marks f.body)).2 with
    | nil => simp
    | cons stray tail => simp [(head_snd_cutAtClose cut).2]
  rw [f.countP_faults closed, tree_parts, Expression.essence, parts]
  split
  · next none =>
    -- without parts there is no text either, and nothing is left open
    rw [List.isEmpty_iff] at none
    rw [none, essences] at parts
    rw [← parts, (List.append_eq_nil_iff.1 parts.symm).1]
    rfl
  · rfl

/-- All leaves of a tree are tidy, and all its calls have known names. -/
theorem isTidy_tree (closed : f.body.LiteralsClosed) (free : f.body.ConnectorFree) :
    ∀ n ∈ f.tree.nodes, n.IsTidy := by
  have tidy : ∀ m ∈ marks f.body, m.Tidy := tidy_place closed free 0 false
  have bodyTidy : f.body.Tidy := by
    have := (tidy_sourceText tidy).1
    rwa [sourceText, map_piece_marks, textOf_pieces] at this
  have parts := f.sound_children tokenInvariant_tidyFrom
    ⟨allGenuine_marks f.body, tidy, Text.tidy_nil⟩
  rw [tree_parts] at parts ⊢
  rw [nodes]
  intro n met
  rcases List.mem_cons.1 met with rfl | met
  · show Sound Text.Tidy _
    unfold Sound
    split
    · next whole => exact (Expression.plain.inj whole).1 ▸ bodyTidy
    · next isCall => cases isCall
    · trivial
  · exact parts n met

end Formula

end SheetFormula
