import SheetFormula.Proofs.Reading.Semicolons

/-!
# Expressions without their source texts

Formulas that differ in their separators only have the same tree, but for the texts that groups,
calls and parts in a row were read from (`erased_read_semicolons`).

## Main definitions

* `Expression.erased` — an expression without the texts of nodes that have parts
* `Mark.Rewritable` — marks that the readers meet before and after commas are replaced
-/

namespace SheetFormula

namespace Expression

mutual

/-- The expression without the text that it was read from, down to its leaves. -/
def erased : Expression → Expression
  | plain source parts => if parts.isEmpty then plain source [] else plain [] (erasedEach parts)
  | group _ parts => group [] (erasedEach parts)
  | call name _ arguments => call name [] (erasedEach arguments)
  | operator op => operator op

/-- Each of several expressions without the texts. -/
def erasedEach : List Expression → List Expression
  | [] => []
  | e :: es => erased e :: erasedEach es

end

variable {s t : Text} {es fs : List Expression}

theorem erasedEach_eq_map (es : List Expression) : erasedEach es = es.map erased := by
  induction es with
  | nil => rw [erasedEach, List.map_nil]
  | cons e es ih => rw [erasedEach, ih, List.map_cons]

theorem erasedEach_append : erasedEach (es ++ fs) = erasedEach es ++ erasedEach fs := by
  rw [erasedEach_eq_map, erasedEach_eq_map, erasedEach_eq_map, List.map_append]

theorem isEmpty_erasedEach (es : List Expression) : (erasedEach es).isEmpty = es.isEmpty := by
  rw [erasedEach_eq_map, List.isEmpty_map]

theorem erasedEach_eq_nil : erasedEach es = [] ↔ es = [] := by
  rw [← List.isEmpty_iff, isEmpty_erasedEach, List.isEmpty_iff]

theorem erased_leaf : erased (plain s []) = plain s [] := by
  rw [erased, if_pos List.isEmpty_nil]

theorem erased_node {e : Expression} :
    erased (plain s (e :: es)) = plain [] (e.erased :: erasedEach es) := by
  rw [erased, if_neg (by simp), erasedEach]

/-- Only a node without parts keeps its text. -/
theorem erased_plain (same : erasedEach es = erasedEach fs) (leaf : es = [] → s = t) :
    (plain s es).erased = (plain t fs).erased := by
  have empty : es.isEmpty = fs.isEmpty := by
    rw [← isEmpty_erasedEach es, same, isEmpty_erasedEach]
  rw [erased, erased, same, empty]
  split
  · next none => rw [leaf (List.isEmpty_iff.1 (empty.trans none))]
  · rfl

theorem erased_argumentOf (same : erasedEach es = erasedEach fs) (leaf : es = [] → s = t) :
    (argumentOf s es).erased = (argumentOf t fs).erased := by
  have size := congrArg List.length same
  rw [erasedEach_eq_map, erasedEach_eq_map, List.length_map, List.length_map] at size
  match es, fs with
  | [], [] => rw [leaf rfl]
  | [e], [f] =>
    rw [erasedEach_eq_map, erasedEach_eq_map] at same
    exact (List.cons.inj same).1
  | e :: e' :: es, f :: f' :: fs => exact erased_plain same leaf

/-- Lists of expressions without texts agree where their members do. -/
theorem erasedEach_map {α β : Type} {R : α → β → Prop} {xs : List α} {ys : List β}
    {f : α → Expression} {g : β → Expression} (related : List.Forall₂ R xs ys)
    (same : ∀ x ∈ xs, ∀ y ∈ ys, R x y → (g y).erased = (f x).erased) :
    erasedEach (ys.map g) = erasedEach (xs.map f) := by
  induction related with
  | nil => rfl
  | cons first _ ih =>
    rw [List.map_cons, List.map_cons, erasedEach, erasedEach,
      same _ List.mem_cons_self _ List.mem_cons_self first,
      ih fun x met y isOther => same x (List.mem_cons_of_mem _ met) y
        (List.mem_cons_of_mem _ isOther)]

/-! ## What does not depend on the texts -/

/-- A node keeps its outside: whether it is a call or holds parts, and what its neighbours see of
it. -/
theorem outside_erased (e : Expression) :
    e.erased.isCall = e.isCall ∧ e.erased.isCompound = e.isCompound ∧
      e.erased.edgeLexeme = e.edgeLexeme := by
  match e with
  | .plain source [] => rw [erased_leaf]; exact ⟨rfl, rfl, rfl⟩
  | .plain source (part :: parts) => rw [erased_node]; exact ⟨rfl, rfl, rfl⟩
  | .group source parts => rw [erased]; exact ⟨rfl, rfl, rfl⟩
  | .call name source arguments => rw [erased]; exact ⟨rfl, rfl, rfl⟩
  | .operator op => rw [erased]; exact ⟨rfl, rfl, rfl⟩

mutual

theorem containsCall_erased (e : Expression) : e.erased.containsCall = e.containsCall := by
  match e with
  | .plain source [] => rw [erased_leaf]
  | .plain source (part :: parts) =>
    rw [erased_node, containsCall, containsCall, ← erasedEach]
    exact anyContainsCall_erasedEach (part :: parts)
  | .group source parts =>
    rw [erased, containsCall, containsCall]
    exact anyContainsCall_erasedEach parts
  | .call name source arguments => rw [erased, containsCall, containsCall]
  | .operator op => rw [erased]

theorem anyContainsCall_erasedEach (es : List Expression) :
    anyContainsCall (erasedEach es) = anyContainsCall es := by
  match es with
  | [] => rw [erasedEach]
  | e :: es =>
    rw [erasedEach, anyContainsCall, anyContainsCall, containsCall_erased e,
      anyContainsCall_erasedEach es]

end

mutual

theorem display_erased (e : Expression) : e.erased.display = e.display := by
  match e with
  | .plain source [] => rw [erased_leaf]
  | .plain source (part :: parts) =>
    rw [erased_node, display, display, if_neg (by simp), if_neg (by simp), ← erasedEach,
      displayEach_erasedEach (part :: parts)]
  | .group source parts =>
    rw [erased, display, display, displayEach_erasedEach parts]
  | .call name source arguments =>
    rw [erased, display, display, displayEach_erasedEach arguments]
  | .operator op => rw [erased]

theorem displayEach_erasedEach (es : List Expression) :
    displayEach (erasedEach es) = displayEach es := by
  match es with
  | [] => rw [erasedEach]
  | e :: es =>
    rw [erasedEach, displayEach, displayEach, display_erased e, displayEach_erasedEach es]

end

end Expression

open Expression

namespace Mark

variable {separator : Separator} {s : Scope} {pending : Text} {m : Mark} {ms ns : List Mark}

/-- Where nothing is opened, nothing is closed either. -/
theorem noClosing_of_noOpening (enclosed : Enclosed 0 ms)
    (noOpening : ∀ m ∈ ms, m.char? ≠ some '(') : ∀ m ∈ ms, m.char? ≠ some ')' := by
  induction ms with
  | nil => exact fun m met => absurd met List.not_mem_nil
  | cons m ms ih =>
    obtain ⟨here, behind⟩ := List.forall_mem_cons.1 noOpening
    obtain ⟨first, rest⟩ := enclosed_cons.1 enclosed
    have noClosing : m.char? ≠ some ')' := fun closing => first ⟨rfl, closing⟩
    rw [depthAfter_other here noClosing] at rest
    exact List.forall_mem_cons.2 ⟨noClosing, ih rest behind⟩

theorem noOpening_of_openingsFrom {front : Text} (none : openingsFrom separator front ms = []) :
    ∀ m ∈ ms, m.char? ≠ some '(' := by
  induction ms generalizing front with
  | nil => exact fun m met => absurd met List.not_mem_nil
  | cons m ms ih =>
    by_cases isOpening : m.char? = some '('
    · rw [openingsFrom, if_pos isOpening] at none
      cases none
    · rw [openingsFrom_cons_other isOpening] at none
      exact List.forall_mem_cons.2 ⟨isOpening, ih none⟩

/-! ## Rewritten marks -/

/-- Balanced marks of a scope that have no semicolon yet, behind a token that ends in the name in
front of them. -/
structure Rewritable (s : Scope) (pending : Text) (ms : List Mark) : Prop where
  complete : AllComplete ms
  balanced : openAfter 0 ms = 0
  noSemicolon : ∀ m ∈ ms, m.char? ≠ some ';'
  joins : s.Joins ms
  sameName : (Text.cutBeforeName pending).2 = (Text.cutBeforeName s.front).2

/-- A mark that is no parenthesis is not rewritten. -/
theorem Rewritable.tail {token : Text} (rewritable : Rewritable s pending (m :: ms))
    (noOpening : m.char? ≠ some '(') (noClosing : m.char? ≠ some ')')
    (sameName : (Text.cutBeforeName token).2 = (Text.cutBeforeName (s.front ++ m.piece.text)).2) :
    Rewritable (s.behind m.piece) token ms ∧
      semicolons s (m :: ms) = m :: semicolons (s.behind m.piece) ms := by
  have balanced := rewritable.balanced
  rw [openAfter_cons, depthAfter_other noOpening noClosing] at balanced
  obtain ⟨joins, same⟩ := rewritable.joins.cons noOpening noClosing
  exact ⟨⟨rewritable.complete.tail, balanced, (List.forall_mem_cons.1 rewritable.noSemicolon).2,
    joins, sameName⟩, same⟩

/-- An operator is not rewritten, and ends the name. -/
theorem Rewritable.operator {op : Operator} (rewritable : Rewritable s pending (ms ++ ns))
    (isLexeme : ms.map piece = op.lexeme.map Piece.char) :
    Rewritable (s.behindEach (ms.map piece)) [] ns ∧
      semicolons s (ms ++ ns) = ms ++ semicolons (s.behindEach (ms.map piece)) ns := by
  have others := noParenthesis_of_lexeme isLexeme
  have balanced := rewritable.balanced
  rw [openAfter_append, (enclosed_other others).2] at balanced
  obtain ⟨joins, same⟩ := rewritable.joins.append others
  have noName : (Text.cutBeforeName (s.front ++ op.lexeme)).2 = [] :=
    Text.name_append_lexeme s.front op
  refine ⟨⟨rewritable.complete.of_subset (List.subset_append_right _ _), balanced,
    fun m met => rewritable.noSemicolon m (List.mem_append_right _ met), joins, ?_⟩, same⟩
  rw [Scope.front_behindEach, isLexeme, textOf_chars, noName]
  rfl

/-- What is rewritten inside a parenthesis and behind it stays apart. -/
theorem Rewritable.parentheses {opening : Mark} {inside tail : List Mark}
    (rewritable : Rewritable s pending (opening :: (inside ++ tail)))
    (isOpening : opening.piece = .char '(') (closes : Closes inside tail)
    (enclosed : Enclosed 0 inside) (behindEnclosed : Enclosed 0 tail.tail) :
    openAfter 0 inside = 0 ∧ ∃ closing r, Rewritable r [] tail.tail ∧
      semicolons s (opening :: (inside ++ tail)) = opening ::
        (semicolons (s.behind (.char '(')) inside ++ closing :: semicolons r tail.tail) ∧
      Closes (semicolons (s.behind (.char '(')) inside) (closing :: semicolons r tail.tail) := by
  obtain ⟨closing, behind, rfl, isClosing, balanced, behindBalanced⟩ :=
    closes.exists_closing (char?_char isOpening) enclosed rewritable.balanced
  obtain ⟨r, joins, noName, same⟩ := rewritable.joins.parentheses isOpening
    (piece_of_char? isClosing) enclosed balanced
  have inner : openAfter 0 inside = openAfter 0 (semicolons (s.behind (.char '(')) inside) :=
    (enclosed_of_replaces (replaces_semicolons (s.behind (.char '(')) inside)).2
  have outer : Enclosed 0 (semicolons r behind) :=
    (enclosed_of_replaces (replaces_semicolons r behind)).1.1 behindEnclosed
  refine ⟨balanced, closing, r, ⟨?_, behindBalanced, ?_, joins, noName.symm⟩, same, ?_⟩
  · exact rewritable.complete.of_subset fun m (met : m ∈ behind) => by simp [met]
  · exact fun m (met : m ∈ behind) => rewritable.noSemicolon m (by simp [met])
  · exact .behind isClosing (inner.symm.trans balanced) outer

/-- Inside a group nothing separates. -/
theorem Rewritable.group {opening : Mark} {inside tail : List Mark}
    (rewritable : Rewritable s pending (opening :: (inside ++ tail)))
    (unknown : FunctionName.canonical? (Text.cutBeforeName pending).2 = none)
    (balanced : openAfter 0 inside = 0) : Rewritable (s.behind (.char '(')) [] inside := by
  refine ⟨rewritable.complete.of_subset fun m met => by simp [met], balanced,
    fun m met => rewritable.noSemicolon m (by simp [met]), fun isInside => ?_,
    (Text.name_concat_other (by decide +kernel) s.front).symm⟩
  rw [Scope.inCall, Scope.opened_behind_opening rfl, Scope.opensCall, ← rewritable.sameName,
    unknown] at isInside
  cases isInside

/-- Marks without parts hold no call, and are not rewritten. -/
theorem semicolons_of_value_eq_nil {afterOperand : Bool} (readable : Readable ms)
    (rewritable : Rewritable s pending ms)
    (empty : (read separator afterOperand pending ms).value = []) : semicolons s ms = ms := by
  have openings : openingsOfEach (read separator afterOperand pending ms).value =
      openingsFrom separator pending ms :=
    openings_read afterOperand pending readable rewritable.complete rewritable.balanced pending rfl
  rw [empty, openingsOfEach_nil] at openings
  have noOpening := noOpening_of_openingsFrom openings.symm
  have noClosing := noClosing_of_noOpening readable.enclosed noOpening
  have joins := rewritable.joins
  rw [← List.append_nil ms] at joins
  have same := (joins.append fun m met => ⟨noOpening m met, noClosing m met⟩).2
  rwa [List.append_nil, semicolons, List.append_nil] at same

/-- The arguments of a call are the same expressions when they are rewritten, as long as their parts
are. -/
theorem erased_arguments_semicolons {opening : Mark} {inside tail : List Mark} {name : Text}
    (rewritable : Rewritable s pending (opening :: (inside ++ tail)))
    (known : FunctionName.canonical? (Text.cutBeforeName pending).2 = some name)
    (readable : Readable inside) (balanced : openAfter 0 inside = 0)
    (ih : ∀ part ∈ argumentParts .comma inside, ∀ {r : Scope}, Rewritable r [] (trimmed part) →
      erasedEach (read .semicolon false [] (semicolons r (trimmed part))).value =
        erasedEach (read .comma false [] (trimmed part)).value) :
    erasedEach ((argumentParts .semicolon (semicolons (s.behind (.char '(')) inside)).map
        (readArgument .semicolon)) =
      erasedEach ((argumentParts .comma inside).map (readArgument .comma)) := by
  have complete : AllComplete inside :=
    rewritable.complete.of_subset fun m met => by simp [met]
  have noSemicolon : ∀ m ∈ inside, m.char? ≠ some ';' :=
    fun m met => rewritable.noSemicolon m (by simp [met])
  have inCall : (s.behind (.char '(')).inCall = true := by
    have opensCall : s.opensCall = true := by
      rw [Scope.opensCall, ← rewritable.sameName, known]
      rfl
    rw [Scope.inCall, Scope.opened_behind_opening rfl]
    exact opensCall
  have parts : List.Forall₂ Rewritten (argumentParts .comma inside)
      (argumentParts .semicolon (semicolons (s.behind (.char '(')) inside)) :=
    argumentParts_semicolons inCall (Text.name_concat_other (by decide +kernel) s.front)
      readable.enclosed noSemicolon
  -- every argument is rewritten inside the call, and none of its own commas separates
  refine erasedEach_map parts fun part isPart other _ rewritten => ?_
  obtain ⟨q, isInside, noName, rfl⟩ := rewritten
  have partReadable := readable.of_mem_argumentParts isPart
  have within := subset_of_mem_argumentParts readable.enclosed isPart
  have partComplete := complete.of_subset within
  have trimmedWithin := partComplete.trimmed_isInfix.subset
  obtain ⟨r, -, firstNoName, same⟩ := trimmed_semicolons partReadable.genuine partComplete noName
  have trimmedRewritable : Rewritable r [] (trimmed part) := by
    refine ⟨partComplete.of_subset trimmedWithin, ?_,
      fun m met => noSemicolon m (within (trimmedWithin met)), fun _ => ?_, firstNoName.symm⟩
    · rw [(partReadable.enclosed.trimmed partReadable.genuine).2]
      exact balanced_of_mem_argumentParts readable.enclosed balanced isPart
    · exact (undivided_of_mem_argumentParts readable.enclosed isPart).trimmed
        partReadable.genuine fun m met => (partComplete m met).closed
  have children := ih part isPart trimmedRewritable
  rw [readArgument, readArgument, same]
  refine erased_argumentOf children fun empty => ?_
  rw [empty, erasedEach, eq_comm, erasedEach_eq_nil] at children
  rw [semicolons_of_value_eq_nil partReadable.trimmed trimmedRewritable children]

/-- The readers find the same in rewritten marks, cut at semicolons, as in the marks, cut at commas.
-/
theorem erased_read_semicolons (afterOperand : Bool) (pending : Text) (readable : Readable ms)
    (rewritable : Rewritable s pending ms) :
    erasedEach (read .semicolon afterOperand pending (semicolons s ms)).value =
      erasedEach (read .comma afterOperand pending ms).value := by
  revert s
  refine read_induction .comma
    (motive := fun afterOperand pending ms => ∀ {s : Scope}, Rewritable s pending ms →
      erasedEach (read .semicolon afterOperand pending (semicolons s ms)).value =
        erasedEach (read .comma afterOperand pending ms).value)
    ?nil ?literal ?connector ?operator ?char ?call ?group afterOperand pending readable
  case nil =>
    intro afterOperand pending s _
    rw [semicolons, read_nil, read_nil]
  case literal =>
    intro afterOperand pending mark rest text closed _ isLiteral ih s rewritable
    have noChar := char?_literal isLiteral
    have sameName := Text.name_append rewritable.sameName mark.piece.text
    obtain ⟨behind, same⟩ := rewritable.tail (by simp [noChar]) (by simp [noChar]) sameName
    rw [same, read_literal isLiteral, read_literal isLiteral, Transcript.value_bind,
      Transcript.value_bind]
    refine ih ?_
    rwa [isLiteral] at behind ⊢
  case connector =>
    intro afterOperand pending mark rest c _ isChar noOpening connector ih s rewritable
    have isMark := char?_char isChar
    obtain ⟨-, isConnector⟩ := Bool.and_eq_true_iff.1 connector
    have noClosing := Text.ne_closing_of_isConnector isConnector
    have noName := Text.isNameChar_of_isConnector isConnector
    -- the blank in the token and the connector in the text both end the name
    have sameName : (Text.cutBeforeName (pending ++ [' '])).2 =
        (Text.cutBeforeName (s.front ++ mark.piece.text)).2 := by
      rw [Text.name_concat_other (by decide +kernel), isChar]
      exact (Text.name_concat_other noName s.front).symm
    obtain ⟨behind, same⟩ := rewritable.tail (by simpa [isMark] using noOpening)
      (by simpa [isMark] using noClosing) sameName
    rw [same, read_connector isChar noOpening connector, read_connector isChar noOpening connector]
    exact ih behind
  case operator =>
    intro afterOperand pending mark rest c op _ isChar noOpening noConnector standalone isLexeme _
      ih s rewritable
    have whole := (cons_take_append_drop mark rest (op.width - 1)).symm
    have again := standaloneOperator?_of_replaces afterOperand pending
      (replaces_semicolons s (mark :: rest))
    have size : (rest.take (op.width - 1)).length = op.width - 1 := by
      have := congrArg List.length isLexeme
      rw [List.length_map, List.length_map, List.length_cons, ← Operator.width] at this
      omega
    rw [whole] at rewritable
    obtain ⟨behind, same⟩ := rewritable.operator isLexeme
    rw [← whole, List.cons_append] at same
    rw [same, standalone] at again
    rw [same, read_operator isChar noOpening noConnector again,
      read_operator isChar noOpening noConnector standalone, List.drop_left' size]
    simp only [Transcript.value_bind, Transcript.value_pure, erasedEach_append, erasedEach]
    exact congrArg (_ ++ _ :: ·) (ih behind)
  case char =>
    intro afterOperand pending mark rest c _ isChar noOpening noClosing noConnector standalone ih s
      rewritable
    have isMark := char?_char isChar
    have again := standaloneOperator?_of_replaces afterOperand pending
      (replaces_semicolons s (mark :: rest))
    have sameName := Text.name_append rewritable.sameName mark.piece.text
    obtain ⟨behind, same⟩ := rewritable.tail (by simpa [isMark] using noOpening)
      (by simpa [isMark] using noClosing) sameName
    rw [same, standalone] at again
    rw [same, read_char isChar noOpening noConnector again,
      read_char isChar noOpening noConnector standalone]
    refine ih ?_
    rwa [isChar] at behind ⊢
  case call =>
    intro afterOperand pending opening inside tail name _ isOpening insideReadable closes
      tailReadable known ihArguments ihTail s rewritable
    obtain ⟨balanced, closing, r, behind, same, closed⟩ := rewritable.parentheses isOpening closes
      insideReadable.enclosed tailReadable.enclosed
    have inner := insideReadable.of_replaces (replaces_semicolons (s.behind (.char '(')) inside)
    have arguments := erased_arguments_semicolons rewritable known insideReadable balanced
      ihArguments
    rw [same, value_read_call isOpening insideReadable closes known,
      value_read_call isOpening inner closed known, erasedEach_append, erasedEach_append,
      erasedEach, erasedEach, erased, erased, arguments, List.tail_cons, ihTail behind]
  case group =>
    intro afterOperand pending opening inside tail _ isOpening insideReadable closes tailReadable
      unknown ihInside ihTail s rewritable
    obtain ⟨balanced, closing, r, behind, same, closed⟩ := rewritable.parentheses isOpening closes
      insideReadable.enclosed tailReadable.enclosed
    have inner := insideReadable.of_replaces (replaces_semicolons (s.behind (.char '(')) inside)
    rw [same, value_read_group isOpening insideReadable closes unknown,
      value_read_group isOpening inner closed unknown, erasedEach_append, erasedEach_append,
      erasedEach, erasedEach, erased, erased, ihInside (rewritable.group unknown balanced),
      List.tail_cons, ihTail behind]

end Mark

end SheetFormula
