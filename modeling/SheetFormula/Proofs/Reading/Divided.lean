import SheetFormula.Proofs.Marks.Completed
import SheetFormula.Proofs.Marks.Literals
import SheetFormula.Proofs.Reading.Sources

/-!
# Divided arguments

No leaf that stands by itself among the parts of an argument shows the separator
(`Mark.divided_read`): it would have divided the argument. The other way round, a semicolon of a
formula is found again, in a leaf or between the arguments of a call (`Mark.exists_semicolon_read`).

## Main definitions

* `Expression.row` — the parts in a row that an argument stands for
* `Expression.Divided` — calls whose arguments show no separator
* `Mark.Separable` — marks that show a separator only if they are cut at it
* `Expression.ShowsSemicolon` — nodes that are not written without a semicolon
-/

namespace SheetFormula

open Piece (Proper)

/-! ## Arguments as rows -/

namespace Expression

variable {P Q : Text → Prop} {e : Expression} {es : List Expression}

/-- The parts in a row that an argument stands for. -/
def row : Expression → List Expression
  | plain text [] => if text.isEmpty then [] else [plain text []]
  | plain _ (part :: parts) => part :: parts
  | group source parts => [group source parts]
  | call name source arguments => [call name source arguments]
  | operator op => [operator op]

theorem row_cases (e : Expression) : e.row = [e] ∨ ∃ source, e = plain source e.row := by
  match e with
  | plain [] [] => exact .inr ⟨[], rfl⟩
  | plain (_ :: _) [] => exact .inl rfl
  | plain source (_ :: _) => exact .inr ⟨source, rfl⟩
  | group _ _ | call _ _ _ | operator _ => exact .inl rfl

theorem row_eq_nil : e.row = [] ↔ e = plain [] [] := by
  refine ⟨fun none => ?_, by rintro rfl; rfl⟩
  cases e with
  | plain source parts =>
    cases parts with
    | nil =>
      cases source with
      | nil => rfl
      | cons => cases none
    | cons => cases none
  | group | call | operator => cases none

/-- A call has no empty argument alone. -/
def Filled : Expression → Prop
  | call _ _ arguments => arguments ≠ [leaf []]
  | _ => True

theorem InRow.row_eq (part : InRow P e) : e.row = [e] := by
  cases part with
  | leaf holds visible => rw [row, if_neg (by simpa using visible)]
  | group | call | operator => rw [row]

theorem row_several {source : Text} (two : 2 ≤ es.length) : (plain source es).row = es := by
  cases es with
  | nil => cases two
  | cons => rw [row]

mutual

theorem InRow.mono (weaker : ∀ t, P t → Q t) {e : Expression} (part : InRow P e) : InRow Q e := by
  match part with
  | .leaf holds visible => exact .leaf (weaker _ holds) visible
  | .group row => exact .group (row.mono weaker)
  | .call known each => exact .call known fun a met => (each a met).mono weaker
  | .operator op => exact .operator op

theorem Row.mono (weaker : ∀ t, P t → Q t) {es : List Expression} (row : Row P es) : Row Q es := by
  match row with
  | .nil => exact .nil
  | .cons first apart behind => exact .cons (first.mono weaker) apart (behind.mono weaker)

theorem IsArgument.mono (weaker : ∀ t, P t → Q t) {e : Expression} (argument : IsArgument P e) :
    IsArgument Q e := by
  match argument with
  | .nothing => exact .nothing
  | .single part => exact .single (part.mono weaker)
  | .several two row => exact .several two (row.mono weaker)

end

/-- In a row, what is read of an argument stands for its parts. -/
theorem Row.row_argumentOf {text : Text} (row : Row P es) (nothing : es = [] → text = []) :
    (argumentOf text es).row = es := by
  match es with
  | [] =>
    obtain rfl := nothing rfl
    rfl
  | [part] =>
    cases row with
    | cons first => exact first.row_eq
  | first :: second :: others => exact row_several (by simp)

/-- The nodes of the parts of an argument are its nodes. -/
theorem nodesOfEach_subset_argumentOf {text : Text} :
    nodesOfEach es ⊆ (argumentOf text es).nodes := by
  unfold argumentOf
  split
  · rw [nodesOfEach]
    exact List.nil_subset _
  · rw [nodesOfEach, nodesOfEach, List.append_nil]
    exact List.Subset.refl _
  · rw [nodes]
    exact List.subset_cons_self _ _

/-- The arguments of a call show no separator, and none of them is empty alone. -/
def Divided (separator : Separator) : Expression → Prop
  | call _ _ arguments => arguments ≠ [leaf []] ∧
      ∀ a ∈ arguments, ∀ t, leaf t ∈ a.row → .char separator.char ∉ pieces t
  | _ => True

theorem Divided.of_opening? {separator : Separator} (opens : e.opening?.isSome = false) :
    e.Divided separator := by
  cases e with
  | call => cases opens
  | plain | group | operator => trivial

theorem Divided.filled {separator : Separator} (divided : e.Divided separator) : e.Filled := by
  cases e with
  | call => exact divided.1
  | plain | group | operator => trivial

/-- A leaf with a semicolon, or a call with several arguments. -/
def ShowsSemicolon : Expression → Prop
  | plain text [] => .char ';' ∈ pieces text
  | call _ _ arguments => 2 ≤ arguments.length
  | _ => False

end Expression

open Expression

/-! ## Pieces of a token -/

namespace Text

variable {t : Text} {p : Piece}

theorem mem_pieces_trim (closed : t.LiteralsClosed) (noBlank : p.satisfies isBlank = false) :
    p ∈ SheetFormula.pieces (trim t) ↔ p ∈ SheetFormula.pieces t := by
  obtain ⟨lead, trail, whole, leading, trailing⟩ := trimEnds_split isBlank t
  have holds : t.Holds t.literals := ⟨closed, rfl⟩
  have frame := pieces_frame holds.trim.closed
    (fun met => ne_quote_of_isBlank (leading _ met) rfl)
    fun met => ne_quote_of_isBlank (trailing _ met) rfl
  rw [trim, ← whole] at frame
  have others : ∀ u : Text, (∀ c ∈ u, isBlank c = true) → p ∉ u.map .char := by
    intro u blank met
    obtain ⟨c, within, rfl⟩ := List.mem_map.1 met
    have isBlank : (Piece.char c).satisfies isBlank = true := blank c within
    rw [noBlank] at isBlank
    cases isBlank
  rw [frame, List.mem_append, List.mem_append, trim]
  refine ⟨fun met => .inl (.inr met), fun met => ?_⟩
  exact (met.resolve_right (others trail trailing)).resolve_left (others lead leading)

theorem mem_pieces_front (closed : (cutBeforeName t).1.LiteralsClosed)
    (noName : p.satisfies isNameChar = false) :
    p ∈ SheetFormula.pieces (cutBeforeName t).1 ↔ p ∈ SheetFormula.pieces t := by
  have names : ∀ c ∈ (cutBeforeName t).2, isNameChar c = true := all_takeEndWhile t
  have frame : SheetFormula.pieces ([] ++ (cutBeforeName t).1 ++ (cutBeforeName t).2) = _ :=
    pieces_frame closed List.not_mem_nil fun met => (isNameChar_spelling (names _ met)).1 rfl
  rw [List.nil_append, cutBeforeName, dropEndWhile_append_takeEndWhile] at frame
  have others : p ∉ (cutBeforeName t).2.map .char := by
    intro met
    obtain ⟨c, within, rfl⟩ := List.mem_map.1 met
    have isName : (Piece.char c).satisfies isNameChar = true := names c within
    rw [noName] at isName
    cases isName
  rw [frame, List.map_nil, List.nil_append, List.mem_append]
  exact ⟨.inl, fun met => met.resolve_right others⟩

end Text

theorem eq_of_mem_tokenLeaf {pending t : Text} (isLeaf : .leaf t ∈ tokenLeaf pending) :
    t = Text.trim pending := by
  unfold tokenLeaf at isLeaf
  split at isLeaf
  · cases isLeaf
  · rw [List.mem_singleton, leaf, leaf] at isLeaf
    cases isLeaf
    rfl

namespace Mark

variable {separator mode : Separator} {ms : List Mark}

theorem satisfies_separator (separator : Separator) :
    (Piece.char separator.char).satisfies Text.isBlank = false ∧
      (Piece.char separator.char).satisfies Text.isNameChar = false := by
  cases separator <;> decide +kernel

/-- Behind parentheses no separator has been met either. -/
theorem Undivided.behind {opening : Mark} {inside tail : List Mark}
    (undivided : Undivided separator 0 (opening :: (inside ++ tail)))
    (isOpening : opening.char? = some '(') (enclosed : Enclosed 0 inside)
    (closes : Closes inside tail) : Undivided separator 0 tail.tail := by
  rw [undivided_cons, depthAfter_opening isOpening, undivided_append, (enclosed.add 1).2]
    at undivided
  cases closes with
  | never => rfl
  | behind isClosing balanced _ =>
    rw [balanced, undivided_cons, depthAfter_closing isClosing] at undivided
    exact undivided.2.2.2

/-- A leaf among the parts that are read of undivided marks shows no separator. -/
theorem not_mem_leaf_read (afterOperand : Bool) (pending : Text) (readable : Readable ms)
    (proper : Proper (joined pending ms)) (undivided : Undivided mode 0 ms)
    (free : .char mode.char ∉ pieces pending) :
    ∀ t, .leaf t ∈ (read separator afterOperand pending ms).value →
      .char mode.char ∉ pieces t := by
  obtain ⟨noBlank, noName⟩ := satisfies_separator mode
  -- a token without separators makes a leaf without them
  have token : ∀ {pending t : Text}, pending.LiteralsClosed → .char mode.char ∉ pieces pending →
      .leaf t ∈ tokenLeaf pending → .char mode.char ∉ pieces t := by
    intro pending t closed free isLeaf
    rw [eq_of_mem_tokenLeaf isLeaf, Text.mem_pieces_trim closed noBlank]
    exact free
  have fresh : Piece.char mode.char ∉ pieces [] := by rw [pieces]; exact List.not_mem_nil
  revert proper undivided free
  refine read_induction separator
    (motive := fun afterOperand pending ms => Proper (joined pending ms) →
      Undivided mode 0 ms → .char mode.char ∉ pieces pending →
      ∀ t, .leaf t ∈ (read separator afterOperand pending ms).value →
        .char mode.char ∉ pieces t)
    ?nil ?literal ?connector ?operator ?char ?call ?group afterOperand pending readable
  case nil =>
    intro afterOperand pending proper _ free t isLeaf
    rw [read_nil] at isLeaf
    exact token (holds_token proper).closed free isLeaf
  case literal =>
    intro afterOperand pending mark rest text closed _ isLiteral ih proper undivided free t isLeaf
    have noChar := char?_literal isLiteral
    have behind := (undivided_cons.1 undivided).2
    rw [depthAfter_other (by simp [noChar]) (by simp [noChar])] at behind
    have joins := joined_append proper
    have cut := pieces_join proper
    rw [isLiteral] at joins cut
    rw [read_literal isLiteral] at isLeaf
    exact ih (joins ▸ proper) behind (by rw [Piece.text] at cut; simp [cut, free]) t isLeaf
  case connector =>
    intro afterOperand pending mark rest c _ isChar noOpening connector ih proper undivided free t
      isLeaf
    rw [read_connector isChar noOpening connector] at isLeaf
    rw [Bool.and_eq_true] at connector
    have behind := (undivided_cons.1 undivided).2
    rw [depthAfter_other (by simpa [char?_char isChar] using noOpening)
      (by simpa [char?_char isChar] using Text.ne_closing_of_isConnector connector.2)] at behind
    have space : pieces [' '] = [.char ' '] := Text.pieces_of_noQuote (by decide)
    have noSpace : mode.char ≠ ' ' := by cases mode <;> decide
    refine ih (joined_space proper isChar).1 behind ?_ t isLeaf
    rw [Text.pieces_append (holds_token proper).closed
      (Text.literalsClosed_of_noQuote (by decide)) (.inr (by simp)), space]
    simp [free, noSpace]
  case operator =>
    intro afterOperand pending mark rest c op _ isChar noOpening noConnector standalone isLexeme _
      ih proper undivided free t isLeaf
    rw [read_operator isChar noOpening noConnector standalone, Transcript.value_bind,
      Transcript.value_pure] at isLeaf
    have others := noParenthesis_of_lexeme isLexeme
    rw [← cons_take_append_drop mark rest (op.width - 1), undivided_append,
      (enclosed_other others).2] at undivided
    rcases List.mem_append.1 isLeaf with isLeaf | isLeaf
    · exact token (holds_token proper).closed free isLeaf
    · exact ih (proper_fresh proper (drop_isInfix mark rest _)) undivided.2 fresh t
        ((List.mem_cons.1 isLeaf).resolve_left (by rintro ⟨⟩))
  case char =>
    intro afterOperand pending mark rest c _ isChar noOpening noClosing noConnector joins ih proper
      undivided free t isLeaf
    have isMark := char?_char isChar
    obtain ⟨first, behind⟩ := undivided_cons.1 undivided
    rw [depthAfter_other (by simpa [isMark] using noOpening) (by simpa [isMark] using noClosing)]
      at behind
    have other : mode.char ≠ c := by
      rintro rfl
      exact first ⟨rfl, isMark⟩
    have joined := joined_append proper
    have cut := pieces_join proper
    rw [isChar] at joined cut
    rw [read_char isChar noOpening noConnector joins] at isLeaf
    exact ih (joined ▸ proper) behind (by rw [Piece.text] at cut; simp [cut, free, other]) t isLeaf
  case call =>
    intro afterOperand pending opening inside tail name _ isOpening insideReadable closes _ known
      _ ihTail proper undivided free t isLeaf
    rw [value_read_call isOpening insideReadable closes known] at isLeaf
    have behind := undivided.behind (char?_char isOpening) insideReadable.enclosed closes
    have front := (holds_token proper).cutBeforeName
    rcases List.mem_append.1 isLeaf with isLeaf | isLeaf
    · exact token front.closed (by rwa [Text.mem_pieces_front front.closed noName]) isLeaf
    · exact ihTail (proper_fresh proper (tail_isInfix opening inside tail)) behind fresh t
        ((List.mem_cons.1 isLeaf).resolve_left (by rintro ⟨⟩))
  case group =>
    intro afterOperand pending opening inside tail _ isOpening insideReadable closes _ unknown
      _ ihTail proper undivided free t isLeaf
    rw [value_read_group isOpening insideReadable closes unknown] at isLeaf
    have behind := undivided.behind (char?_char isOpening) insideReadable.enclosed closes
    rcases List.mem_append.1 isLeaf with isLeaf | isLeaf
    · exact token (holds_token proper).closed free isLeaf
    · exact ihTail (proper_fresh proper (tail_isInfix opening inside tail)) behind fresh t
        ((List.mem_cons.1 isLeaf).resolve_left (by rintro ⟨⟩))

/-- Readers keep nothing of a token that could go wrong. -/
theorem rowInvariant_any : RowInvariant (fun _ _ => True) fun _ => True :=
  ⟨fun _ _ => trivial, fun _ _ _ _ => trivial, fun _ _ _ _ _ => trivial, fun _ _ => trivial,
    fun _ => trivial, fun _ _ => trivial, fun _ => trivial⟩

/-- An argument stands for the parts that are read of it. -/
theorem row_readArgument {part : List Mark} (readable : Readable part) :
    (readArgument separator part).row = (read separator false [] (trimmed part)).value :=
  (rowInvariant_any.row_read false [] readable.trimmed trivial).row_argumentOf fun nothing => by
    rw [trimmed_eq_nil readable nothing]
    rfl

/-- Layout alone makes no argument, so an empty argument is not alone. -/
theorem map_readArgument_ne (readable : Readable ms) :
    (argumentParts separator ms).map (readArgument separator) ≠ [leaf []] := by
  intro single
  obtain ⟨part, whole, empty⟩ := List.map_eq_singleton_iff.1 single
  have isPart : part ∈ argumentParts separator ms := by simp [whole]
  have partReadable := readable.of_mem_argumentParts isPart
  have nothing : trimmed part = [] := by
    have noParts : (read separator false [] (trimmed part)).value = [] := by
      rw [← row_readArgument partReadable, empty]
      rfl
    exact trimmed_eq_nil partReadable noParts
  have divides := divides_of_mem_argumentParts readable.enclosed isPart
  rw [whole] at divides
  cases divides with
  | last _ _ =>
    have layout : ∀ m ∈ ms, m.isLayout = true := by
      obtain ⟨lead, trail, cut, leading, trailing⟩ := trimEnds_split isLayout ms
      rw [trimmed, List.map_eq_nil_iff] at nothing
      rw [cut, nothing, List.append_nil]
      exact List.forall_mem_append.2 ⟨leading, trailing⟩
    rw [argumentParts_layout readable.genuine layout] at whole
    cases whole
  | next _ _ _ _ rest => cases rest

/-- The marks show a separator only if they are cut at it. -/
def Separable (separator mode : Separator) (ms : List Mark) : Prop :=
  mode = separator ∨ ∀ m ∈ ms, m.char? ≠ some mode.char

theorem Separable.of_isInfix {ns : List Mark} (separable : Separable separator mode ms)
    (within : ns <:+: ms) : Separable separator mode ns :=
  separable.imp_right fun free m met => free m (within.subset met)

theorem Separable.tail {m : Mark} (separable : Separable separator mode (m :: ms)) :
    Separable separator mode ms :=
  separable.of_isInfix (List.suffix_cons m ms).isInfix

/-- The arguments between separators are divided. -/
theorem Separable.undivided {part : List Mark} (separable : Separable separator mode ms)
    (enclosed : Enclosed 0 ms) (isPart : part ∈ argumentParts separator ms) :
    Undivided mode 0 part := by
  rcases separable with rfl | free
  · exact undivided_of_mem_argumentParts enclosed isPart
  · have within := subset_of_mem_argumentParts enclosed isPart
    exact undivided_other fun m met => free m (within met)

/-- The calls that are read have divided arguments. -/
theorem divided_read (afterOperand : Bool) (pending : Text) (readable : Readable ms)
    (proper : Proper (joined pending ms))
    (separable : Separable separator mode ms) :
    ∀ n ∈ nodesOfEach (read separator afterOperand pending ms).value, n.Divided mode := by
  have token : ∀ {pending : Text}, ∀ n ∈ nodesOfEach (tokenLeaf pending), n.Divided mode :=
    fun n isNode => .of_opening? (by rw [opening?_of_mem_tokenLeaf isNode]; rfl)
  revert proper separable
  refine read_induction separator
    (motive := fun afterOperand pending ms => Proper (joined pending ms) →
      Separable separator mode ms →
      ∀ n ∈ nodesOfEach (read separator afterOperand pending ms).value, n.Divided mode)
    ?nil ?literal ?connector ?operator ?char ?call ?group afterOperand pending readable
  case nil =>
    intro afterOperand pending _ _
    rw [read_nil]
    exact token
  case literal =>
    intro afterOperand pending mark rest text closed _ isLiteral ih proper separable
    have joins := joined_append proper
    rw [isLiteral] at joins
    rw [read_literal isLiteral]
    exact ih (joins ▸ proper) separable.tail
  case connector =>
    intro afterOperand pending mark rest c _ isChar noOpening connector ih proper separable
    rw [read_connector isChar noOpening connector]
    exact ih (joined_space proper isChar).1 separable.tail
  case operator =>
    intro afterOperand pending mark rest c op _ isChar noOpening noConnector standalone _ _ ih
      proper separable
    rw [read_operator isChar noOpening noConnector standalone, Transcript.value_bind,
      Transcript.value_pure, nodesOfEach_append, nodesOfEach, nodes]
    exact List.forall_mem_append.2 ⟨token, List.forall_mem_cons.2
      ⟨trivial, ih (proper_fresh proper (drop_isInfix mark rest _))
        (separable.of_isInfix (drop_isInfix mark rest _))⟩⟩
  case char =>
    intro afterOperand pending mark rest c _ isChar noOpening _ noConnector joins ih proper
      separable
    have joined := joined_append proper
    rw [isChar] at joined
    rw [read_char isChar noOpening noConnector joins]
    exact ih (joined ▸ proper) separable.tail
  case call =>
    intro afterOperand pending opening inside tail name _ isOpening insideReadable closes _ known
      ihArguments ihTail proper separable
    have insideProper := proper_fresh proper (inside_isInfix opening inside tail)
    have insideSeparable := separable.of_isInfix (inside_isInfix opening inside tail)
    have partProper : ∀ part ∈ argumentParts separator inside,
        Proper (joined [] (trimmed part)) := fun part isPart =>
      have within := isInfix_of_mem_argumentParts insideReadable.enclosed isPart
      have part := proper_fresh insideProper within
      proper_fresh part (trimmed_isInfix (closed_of_proper part))
    rw [value_read_call isOpening insideReadable closes known, nodesOfEach_append, nodesOfEach,
      nodes]
    refine List.forall_mem_append.2 ⟨token, List.forall_mem_append.2
      ⟨List.forall_mem_cons.2 ⟨⟨map_readArgument_ne insideReadable, ?_⟩, fun n isNode => ?_⟩,
        ihTail (proper_fresh proper (tail_isInfix opening inside tail))
          (separable.of_isInfix (tail_isInfix opening inside tail))⟩⟩
    · refine List.forall_mem_map.2 fun part isPart t isLeaf => ?_
      have readable := insideReadable.of_mem_argumentParts isPart
      have undivided := insideSeparable.undivided insideReadable.enclosed isPart
      have within := isInfix_of_mem_argumentParts insideReadable.enclosed isPart
      have closed := closed_of_proper (proper_fresh insideProper within)
      rw [row_readArgument readable] at isLeaf
      exact not_mem_leaf_read false [] readable.trimmed (partProper part isPart)
        (undivided.trimmed readable.genuine closed) (by rw [pieces]; exact List.not_mem_nil) t
        isLeaf
    · by_cases opens : n.opening?.isSome = true
      · obtain ⟨a, met, isNode⟩ := mem_nodesOfEach.1 isNode
        obtain ⟨part, isPart, rfl⟩ := List.mem_map.1 met
        have within := isInfix_of_mem_argumentParts insideReadable.enclosed isPart
        have closed := closed_of_proper (proper_fresh insideProper within)
        exact ihArguments part isPart (partProper part isPart)
          (insideSeparable.of_isInfix ((trimmed_isInfix closed).trans within)) n
          (mem_nodes_argumentOf isNode opens)
      · exact .of_opening? (by simpa using opens)
  case group =>
    intro afterOperand pending opening inside tail _ isOpening insideReadable closes _ unknown
      ihInside ihTail proper separable
    rw [value_read_group isOpening insideReadable closes unknown, nodesOfEach_append, nodesOfEach,
      nodes]
    exact List.forall_mem_append.2 ⟨token, List.forall_mem_append.2
      ⟨List.forall_mem_cons.2 ⟨trivial,
        ihInside (proper_fresh proper (inside_isInfix opening inside tail))
          (separable.of_isInfix (inside_isInfix opening inside tail))⟩,
        ihTail (proper_fresh proper (tail_isInfix opening inside tail))
          (separable.of_isInfix (tail_isInfix opening inside tail))⟩⟩

/-! ## Semicolons -/

/-- Trimming takes no semicolon away. -/
theorem semicolon_trimmed (genuine : AllGenuine ms) (closed : ∀ m ∈ ms, m.isUnclosed = false)
    (met : .char ';' ∈ ms.map piece) : .char ';' ∈ (trimmed ms).map piece := by
  obtain ⟨lead, trail, whole, leading, trailing⟩ := trimEnds_split isLayout ms
  obtain ⟨m, within, isSemicolon⟩ := List.mem_map.1 met
  have noLayout := (genuine m within).noLayout_char isSemicolon (by decide)
  have kept : m ∈ trimEnds isLayout ms := by
    rw [whole, List.mem_append, List.mem_append] at within
    refine (within.resolve_right fun met => ?_).resolve_left fun met => ?_
    · exact absurd (trailing m met) (by simp [noLayout])
    · exact absurd (leading m met) (by simp [noLayout])
  rw [trimmed_eq closed]
  exact List.mem_map.2 ⟨m, kept, isSemicolon⟩

/-- A semicolon among marks in parentheses and behind them is no parenthesis. -/
theorem semicolon_parentheses {opening : Mark} {inside tail : List Mark}
    (isOpening : opening.piece = .char '(') (closes : Closes inside tail)
    (met : .char ';' ∈ (opening :: (inside ++ tail)).map piece) :
    .char ';' ∈ inside.map piece ∨ .char ';' ∈ tail.tail.map piece := by
  rw [List.map_cons, List.map_append, isOpening, List.mem_cons, List.mem_append] at met
  refine (met.resolve_left (by decide)).imp_right fun behind => ?_
  cases closes with
  | never => exact behind
  | behind isClosing _ _ =>
    rw [List.map_cons, piece_of_char? isClosing, List.mem_cons] at behind
    exact behind.resolve_left (by decide)

/-- Semicolons stand in leaves or between the arguments of a call: no reader drops one. -/
theorem exists_semicolon_read (afterOperand : Bool) (pending : Text) (readable : Readable ms)
    (proper : Proper (joined pending ms)) (met : .char ';' ∈ joined pending ms) :
    ∃ n ∈ nodesOfEach (read .semicolon afterOperand pending ms).value, n.ShowsSemicolon := by
  have blank : (Piece.char ';').satisfies Text.isBlank = false := by decide +kernel
  have noName : (Piece.char ';').satisfies Text.isNameChar = false := by decide +kernel
  have token : ∀ {pending : Text}, pending.LiteralsClosed → .char ';' ∈ pieces pending →
      ∃ n ∈ nodesOfEach (tokenLeaf pending), n.ShowsSemicolon := by
    intro pending closed met
    rw [← Text.mem_pieces_trim closed blank] at met
    have visible : Text.trim pending ≠ [] := by
      intro empty
      rw [empty, pieces] at met
      cases met
    refine ⟨leaf (Text.trim pending), ?_, met⟩
    rw [tokenLeaf, if_neg (by simpa using visible), nodesOfEach, nodes_leaf]
    exact List.mem_cons_self
  revert proper met
  refine read_induction .semicolon
    (motive := fun afterOperand pending ms => Proper (joined pending ms) →
      .char ';' ∈ joined pending ms →
      ∃ n ∈ nodesOfEach (read .semicolon afterOperand pending ms).value, n.ShowsSemicolon)
    ?nil ?literal ?connector ?operator ?char ?call ?group afterOperand pending readable
  case nil =>
    intro afterOperand pending proper met
    rw [read_nil]
    rw [joined, List.map_nil, List.append_nil] at met
    exact token (holds_token proper).closed met
  case literal =>
    intro afterOperand pending mark rest text closed _ isLiteral ih proper met
    have joins := joined_append proper
    rw [isLiteral] at joins
    rw [read_literal isLiteral]
    exact ih (joins ▸ proper) (joins ▸ met)
  case connector =>
    intro afterOperand pending mark rest c _ isChar noOpening connector ih proper met
    rw [read_connector isChar noOpening connector]
    rw [Bool.and_eq_true] at connector
    have other : c ≠ ';' := by
      rintro rfl
      exact absurd connector.2 (by decide)
    refine ih (joined_space proper isChar).1 ?_
    have space : pieces [' '] = [.char ' '] := Text.pieces_of_noQuote (by decide)
    rw [joined, List.map_cons, isChar] at met
    rw [joined, Text.pieces_append (holds_token proper).closed
      (Text.literalsClosed_of_noQuote (by decide)) (.inr (by simp)), space]
    simpa [other.symm] using met
  case operator =>
    intro afterOperand pending mark rest c op _ isChar noOpening noConnector standalone isLexeme _
      ih proper met
    rw [read_operator isChar noOpening noConnector standalone, Transcript.value_bind,
      Transcript.value_pure, nodesOfEach_append, nodesOfEach]
    rw [joined, ← cons_take_append_drop mark rest (op.width - 1), List.map_append, isLexeme,
      List.mem_append, List.mem_append] at met
    rcases met with met | met | met
    · obtain ⟨n, isNode, shows⟩ := token (holds_token proper).closed met
      exact ⟨n, List.mem_append_left _ isNode, shows⟩
    · have lexeme : Piece.char ';' ∉ op.lexeme.map .char := by cases op <;> decide
      exact absurd met lexeme
    · obtain ⟨n, isNode, shows⟩ := ih (proper_fresh proper (drop_isInfix mark rest _))
        (by rwa [joined_nil])
      exact ⟨n, List.mem_append_right _ (List.mem_append_right _ isNode), shows⟩
  case char =>
    intro afterOperand pending mark rest c _ isChar noOpening _ noConnector joins ih proper met
    have joined := joined_append proper
    rw [isChar] at joined
    rw [read_char isChar noOpening noConnector joins]
    exact ih (joined ▸ proper) (joined ▸ met)
  case call =>
    intro afterOperand pending opening inside tail name _ isOpening insideReadable closes _ known
      ihArguments ihTail proper met
    have front := (holds_token proper).cutBeforeName
    rw [value_read_call isOpening insideReadable closes known, nodesOfEach_append, nodesOfEach]
    rw [joined, List.mem_append] at met
    rcases met.imp_right (semicolon_parentheses isOpening closes) with met | met | met
    · rw [← Text.mem_pieces_front front.closed noName] at met
      obtain ⟨n, isNode, shows⟩ := token front.closed met
      exact ⟨n, List.mem_append_left _ isNode, shows⟩
    · have insideProper := proper_fresh proper (inside_isInfix opening inside tail)
      have closed := closed_of_proper insideProper
      rcases argumentParts_eq_nil_or_divides .semicolon insideReadable.enclosed with
        ⟨-, layout⟩ | divides
      · obtain ⟨m, within, isSemicolon⟩ := List.mem_map.1 met
        have noLayout := (insideReadable.genuine m within).noLayout_char isSemicolon (by decide)
        rw [layout m within] at noLayout
        cases noLayout
      -- a single argument keeps the semicolon, and several are divided by one
      rcases whole : argumentParts .semicolon inside with _ | ⟨part, _ | ⟨second, others⟩⟩
      · rw [whole] at divides
        cases divides
      · obtain rfl : inside = part := by rw [whole] at divides; cases divides with
          | last => rfl
          | next _ _ _ _ rest => cases rest
        have isPart : inside ∈ argumentParts .semicolon inside := by simp [whole]
        obtain ⟨n, isNode, shows⟩ := ihArguments inside isPart
          (proper_fresh insideProper (trimmed_isInfix closed))
          (by rw [joined_nil]; exact semicolon_trimmed insideReadable.genuine closed met)
        refine ⟨n, List.mem_append_right _ (List.mem_append_left _ ?_), shows⟩
        rw [nodes, List.map_singleton, nodesOfEach, nodesOfEach, List.append_nil]
        exact List.mem_cons_of_mem _ (nodesOfEach_subset_argumentOf isNode)
      · rw [nodes]
        exact ⟨_, List.mem_append_right _ (List.mem_append_left _ List.mem_cons_self),
          by simp [ShowsSemicolon]⟩
    · obtain ⟨n, isNode, shows⟩ := ihTail (proper_fresh proper (tail_isInfix opening inside tail))
        (by rwa [joined_nil])
      exact ⟨n, List.mem_append_right _ (List.mem_append_right _ isNode), shows⟩
  case group =>
    intro afterOperand pending opening inside tail _ isOpening insideReadable closes _ unknown
      ihInside ihTail proper met
    rw [value_read_group isOpening insideReadable closes unknown, nodesOfEach_append, nodesOfEach,
      nodes]
    rw [joined, List.mem_append] at met
    rcases met.imp_right (semicolon_parentheses isOpening closes) with met | met | met
    · obtain ⟨n, isNode, shows⟩ := token (holds_token proper).closed met
      exact ⟨n, List.mem_append_left _ isNode, shows⟩
    · obtain ⟨n, isNode, shows⟩ := ihInside
        (proper_fresh proper (inside_isInfix opening inside tail)) (by rwa [joined_nil])
      exact ⟨n, List.mem_append_right _ (List.mem_append_left _ (List.mem_cons_of_mem _ isNode)),
        shows⟩
    · obtain ⟨n, isNode, shows⟩ := ihTail (proper_fresh proper (tail_isInfix opening inside tail))
        (by rwa [joined_nil])
      exact ⟨n, List.mem_append_right _ (List.mem_append_right _ isNode), shows⟩

end Mark

end SheetFormula
