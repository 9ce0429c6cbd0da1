import SheetFormula.Proofs.Format.Steady

/-!
# Formulas that are laid out already

The marks of a laid out row are read as the row again, if its leaves keep their texts and run into
nothing that stands behind them (`TypesetRow.readsAgain`). So a beautified formula has the parts of
the formula, and stays as it is when it is beautified again (`beautify_beautify`). Where a leaf does
run into what follows it, every pass may change the formula once more
(`beautify_third_pass_changes`).

## Main definitions

* `Expression.FitsBehind` — tokens that a row may stand behind
* `Expression.ReadsAgain` — marks that are read as the parts in a row
-/

namespace SheetFormula

open Mark Expression

namespace Expression

variable {P : Text → Prop} {style : Style} {separator : Separator} {afterOperand : Bool}
  {t pending : Text} {ms gap ns trail inside : List Mark} {e : Expression} {es : List Expression}

/-! ## Rows that are read again -/

/-- What may stand in the pending token in front of a row: only blanks in front of a leaf, and
nothing in front of an operator that this would join. -/
def FitsBehind (pending : Text) : List Expression → Prop
  | plain _ _ :: _ => ∀ c ∈ pending, Text.isBlank c = true
  | operator op :: es => (op.isSign = true → Text.awaitsExponent pending = false) ∧
      (op = .range → (∀ c ∈ pending, Text.isBlank c = true) ∨ beginsReference es = false)
  | _ => True

theorem fitsBehind_blanks (blanks : ∀ c ∈ pending, Text.isBlank c = true)
    (es : List Expression) : FitsBehind pending es := by
  have noExponent := Text.awaitsExponent_blanks blanks []
  rw [List.append_nil] at noExponent
  unfold FitsBehind
  split
  · exact blanks
  · exact ⟨fun _ => noExponent, fun _ => .inl blanks⟩
  · trivial

/-- A leaf that runs into nothing fits in front of what follows it. -/
theorem fitsBehind_leaf (trimmed : Text.trim t = t) (visible : t ≠ [])
    (other : Text.isSpacedOperator t = false) (noLeaf : ∀ f ∈ es.head?, f.isLeaf = false)
    (before : staysBefore t es = true) (row : Row P es) (front : Text) :
    FitsBehind (front ++ t ++ gapBetween (plain t []) es) es := by
  cases row with
  | nil => trivial
  | cons part =>
    cases part with
    | leaf => cases noLeaf _ rfl
    | group | call => trivial
    | operator op =>
      rw [gapBetween_leaf trimmed visible other rfl, edgeLexeme, Option.any_some,
        isSpacedOperator_lexeme]
      refine ⟨fun isSign => ?_, fun isRange => .inr ?_⟩
      · have takes : op.takesSpaces = true := by cases op <;> first | rfl | cases isSign
        rw [if_pos takes, Text.awaitsExponent, takeEndWhile_concat_of_not (by decide)]
        rfl
      · obtain rfl := isRange
        rw [staysBefore] at before
        simpa using before

variable (P style separator)

/-- Marks that are read as the parts in a row, behind every token and in front of layout. -/
def ReadsAgain (es : List Expression) (ms : List Mark) : Prop :=
  ∀ ⦃trail : List Mark⦄ ⦃afterOperand : Bool⦄ ⦃pending : Text⦄, AllGenuine (ms ++ trail) →
    (∀ m ∈ trail, m.isLayout = true) →
    Steadfast P style separator afterOperand (Text.cutBeforeName pending).2 es →
    FitsBehind pending es →
    erasedEach (read separator afterOperand pending (ms ++ trail)).value =
      erasedEach (tokenLeaf pending) ++ erasedEach es

variable {P style separator}

/-- Between parts, a space joins the token. -/
theorem value_read_gap (between : Written (gapBetween e es) gap)
    (genuine : AllGenuine (gap ++ ns)) :
    (read separator afterOperand pending (gap ++ ns)).value =
      (read separator afterOperand (pending ++ gapBetween e es) ns).value := by
  rw [← between.sourceText_eq]
  refine value_read_joins genuine between.layout (between.char?_ne (not_mem_gap (by decide))) ?_
  intro front c behind cut
  have met : Piece.char c ∈ pieces (gapBetween e es) := by
    rw [← between.pieces, cut]
    simp
  obtain rfl := eq_space_of_mem_gapBetween (Text.mem_of_mem_pieces met)
  exact .plain (fun op => by cases op <;> decide) fun isMark => absurd isMark (by decide)

theorem name_blanks (blanks : ∀ c ∈ t, Text.isBlank c = true) :
    (Text.cutBeforeName t).2 = [] := by
  rcases List.eq_nil_or_concat t with rfl | ⟨front, c, rfl⟩
  · rfl
  · rw [List.concat_eq_append] at blanks ⊢
    exact Text.name_concat_other (Text.isNameChar_of_isBlank (blanks c (by simp))) front

theorem trim_blanks (blanks : ∀ c ∈ t, Text.isBlank c = true) : Text.trim t = [] := by
  have trimmed := trimEnds_append blanks (fun _ met => absurd met List.not_mem_nil) []
  rw [List.append_nil, List.append_nil] at trimmed
  exact trimmed

theorem tokenLeaf_blanks (blanks : ∀ c ∈ t, Text.isBlank c = true) : tokenLeaf t = [] := by
  rw [tokenLeaf, trim_blanks blanks]
  rfl

theorem blank_gap : ∀ c ∈ gapBetween e es, Text.isBlank c = true := fun c met => by
  rw [eq_space_of_mem_gapBetween met]
  decide

/-- Behind an operand or an operator the rest of the row is read by itself. -/
theorem ReadsAgain.rest (behind : ReadsAgain P style separator es ns)
    (steadfast : Steadfast P style separator afterOperand [] es)
    (between : Written (gapBetween e es) gap) (genuine : AllGenuine (gap ++ (ns ++ trail)))
    (trailing : ∀ m ∈ trail, m.isLayout = true) :
    erasedEach (read separator afterOperand [] (gap ++ (ns ++ trail))).value = erasedEach es := by
  rw [value_read_gap between genuine, List.nil_append]
  have blank : ∀ c ∈ gapBetween e es, Text.isBlank c = true := blank_gap
  rw [behind (allGenuine_append.1 genuine).2 trailing (by rwa [name_blanks blank])
    (fitsBehind_blanks blank es), tokenLeaf_blanks blank]
  rfl

/-- A spaced operator is followed by nothing that it could join, or that could make it longer. -/
theorem idle_behind_operator {op : Operator} (takes : op.takesSpaces = true)
    (tokens : ∀ t, P t → t.IsToken) (row : Row P es) (typeset : TypesetRow P style es ns)
    (between : Written (gapBetween (operator op) es) gap)
    (genuine : AllGenuine (gap ++ (ns ++ trail))) (trailing : ∀ m ∈ trail, m.isLayout = true) :
    ∀ d, (gap ++ (ns ++ trail)).head?.bind char? = some d → Text.Idle d := by
  intro d isNext
  cases row with
  | nil =>
    cases typeset with
    | nil =>
      obtain rfl := between.eq_nil
      exact idle_next (allGenuine_append.1 genuine).2 trailing d isNext
  | cons part =>
    rw [gapBetween_operator takes tokens part] at between
    rw [between.head? (by decide)] at isNext
    exact Option.some.inj isNext ▸ Text.idle_of_isBlank (by decide)

theorem noReference_behind (typeset : TypesetRow P style es ns)
    (between : Written (gapBetween e es) gap) (genuine : AllGenuine (gap ++ (ns ++ trail)))
    (trailing : ∀ m ∈ trail, m.isLayout = true) (stays : steadyRow style es = true)
    (none : beginsReference es = false) :
    ((gap ++ (ns ++ trail)).head?.bind char?).any Text.isReferencePart = false := by
  rcases gapBetween_cases e es with tight | space
  · rw [tight] at between
    obtain rfl := between.eq_nil
    cases isNext : ([] ++ (ns ++ trail)).head?.bind char? with
    | none => rfl
    | some d => exact typeset.noReference genuine trailing stays none d isNext
  · rw [space] at between
    rw [between.head? (by decide)]
    decide

theorem readsAgain_operator {op : Operator} (tokens : ∀ t, P t → t.IsToken)
    (written : Written op.lexeme ms) (between : Written (gapBetween (operator op) es) gap)
    (typeset : TypesetRow P style es ns) (behind : ReadsAgain P style separator es ns) :
    ReadsAgain P style separator (operator op :: es) (ms ++ (gap ++ ns)) := by
  intro trail afterOperand pending genuine trailing steadfast fits
  rw [List.append_assoc, List.append_assoc] at genuine ⊢
  have genuineRest := (allGenuine_append.1 genuine).2
  have later : Steadfast P style separator false [] es := steadfast.behind
  have isLexeme : ms.map piece = op.lexeme.map .char := by
    rw [written.pieces]
    exact Text.pieces_of_noQuote (not_mem_lexeme op (by decide))
  have idle := fun takes : op.takesSpaces = true =>
    idle_behind_operator takes tokens later.isRow typeset between genuineRest trailing
  have ends : op ∈ [.less, .greater, .equal] →
      (gap ++ (ns ++ trail)).head?.bind char? ≠ some '=' ∧
        (gap ++ (ns ++ trail)).head?.bind char? ≠ some '>' := by
    intro single
    have takes : op.takesSpaces = true := by
      simp only [List.mem_cons, List.not_mem_nil, or_false] at single
      rcases single with rfl | rfl | rfl <;> rfl
    exact ⟨fun isNext => (idle takes _ isNext).noLexeme .equal (by decide),
      fun isNext => (idle takes _ isNext).noLexeme .greater (by decide)⟩
  have noNumber : op.takesSpaces = true →
      ((gap ++ (ns ++ trail)).head?.bind char?).any (fun c => c.isDigit || c == '.') = false := by
    intro takes
    cases isNext : (gap ++ (ns ++ trail)).head?.bind char? with
    | none => rfl
    | some d =>
      have isIdle := idle takes d isNext
      simp [isIdle.noDigit, isIdle.ne_dot]
  have stands : joinsToken op afterOperand pending ((gap ++ (ns ++ trail)).head?.bind char?) =
      false := by
    cases op with
    | plus | minus =>
      rw [joinsToken, fits.1 rfl, noNumber rfl, Bool.and_false]
      rfl
    | range =>
      rw [joinsToken]
      rcases fits.2 rfl with blanks | none
      · rw [trim_blanks blanks]
        rfl
      · rw [noReference_behind typeset between genuineRest trailing later.stays none,
          Bool.and_false]
    | _ => rfl
  rw [value_read_lexeme isLexeme genuine ends stands, erasedEach_append, erasedEach,
    behind.rest later between genuineRest trailing]
  rfl

/-- No equals sign comes behind an exclamation mark. -/
theorem staysBefore_equals (before : staysBefore t es = true) (row : Row P es)
    (isMark : t.getLast? = some '!') : behindLeaf? es ≠ some '=' := by
  cases row with
  | nil => exact fun none => by cases none
  | cons part =>
    cases part with
    | leaf | group => exact fun none => by cases none
    | call known =>
      intro isEqual
      have begins := (FunctionName.begins_of_mem_known known).1
      rw [behindLeaf?] at isEqual
      rw [isEqual] at begins
      exact absurd begins (by decide)
    | operator op =>
      cases op with
      | doubleEqual => rw [staysBefore, isMark] at before; cases before
      | _ => simp [behindLeaf?, Operator.takesSpaces, Operator.lexeme]

theorem readsAgain_leaf (tokens : ∀ t, P t → t.IsToken) (holds : P t) (visible : t ≠ [])
    (written : Written (style.leaf t) ms) (noLeaf : ∀ f ∈ es.head?, f.isLeaf = false)
    (between : Written (gapBetween (plain t []) es) gap) (typeset : TypesetRow P style es ns)
    (behind : ReadsAgain P style separator es ns) :
    ReadsAgain P style separator (plain t [] :: es) (ms ++ (gap ++ ns)) := by
  intro trail afterOperand pending genuine trailing steadfast fits
  rw [List.append_assoc, List.append_assoc] at genuine ⊢
  have genuineRest := (allGenuine_append.1 genuine).2
  have later := steadfast.behindLeaf
  have token := tokens t holds
  have blanks : ∀ c ∈ pending, Text.isBlank c = true := fits
  obtain ⟨-, joins, -, parts, stays⟩ := steadfast
  rw [partedBehind, staysBehind, Bool.and_eq_true, Bool.and_eq_true, List.isEmpty_iff] at parts
  rw [steadyRow, steady, if_pos List.isEmpty_nil, Bool.and_eq_true, Bool.and_eq_true,
    beq_iff_eq] at stays
  have keeps := stays.1.1
  have before : staysBefore t es = true := stays.1.2
  rw [keeps] at written later
  have joined : t.Joined afterOperand (behindLeaf? es) := by
    cases joins with
    | leaf joined => exact joined (staysBefore_equals before later.isRow)
  have other := joined.isSpacedOperator_eq (noNumber_behindLeaf? later.isRow)
  have inPlace := typeset.joined between genuineRest trailing later.isRow token.trimmed visible
    noLeaf joined
  have noOpening : ∀ m ∈ ms, m.char? ≠ some '(' := written.char?_ne fun met =>
    absurd (token.noParenthesis _ met) (by decide)
  have readLeaf : (read separator afterOperand pending (ms ++ (gap ++ (ns ++ trail)))).value =
      (read separator afterOperand (pending ++ t) (gap ++ (ns ++ trail))).value := by
    have text := written.sourceText_eq
    rw [value_read_joins genuine written.layout noOpening fun front c behind cut => ?_, text]
    rw [written.pieces] at cut
    exact (joins_blanks blanks).2 (inPlace cut)
  have trimmed : Text.trim (pending ++ t ++ gapBetween (plain t []) es) = t :=
    (trimEnds_append blanks blank_gap t).trans token.trimmed
  have leaf : tokenLeaf (pending ++ t ++ gapBetween (plain t []) es) = [plain t []] := by
    rw [tokenLeaf, trimmed, if_neg (by simpa using visible)]
    rfl
  -- a space ends the name
  have steadfastBehind : Steadfast P style separator afterOperand
      (Text.cutBeforeName (pending ++ t ++ gapBetween (plain t []) es)).2 es := by
    rcases gapBetween_cases (plain t []) es with tight | space
    · rw [tight, List.append_nil, Text.name_append (t := []) parts.1.1 t]
      exact later
    · rw [space, Text.name_concat_other (by decide +kernel)]
      exact later.fresh
  rw [readLeaf, value_read_gap between genuineRest,
    behind (allGenuine_append.1 genuineRest).2 trailing steadfastBehind
      (fitsBehind_leaf token.trimmed visible other noLeaf before later.isRow pending), leaf,
    tokenLeaf_blanks blanks]
  rfl

theorem readsAgain_group {source : Text} {parts : List Expression} {opening closing : Mark}
    {lead behindInside : List Mark} (tokens : ∀ t, P t → t.IsToken)
    (isOpening : opening.piece = .char '(') (isClosing : closing.piece = .char ')')
    (leading : ∀ m ∈ lead, m.isLayout = true)
    (trailingInside : ∀ m ∈ behindInside, m.isLayout = true)
    (insideSet : TypesetRow P style parts inside)
    (insideAgain : ReadsAgain P style separator parts inside)
    (between : Written (gapBetween (group source parts) es) gap)
    (typeset : TypesetRow P style es ns) (behind : ReadsAgain P style separator es ns) :
    ReadsAgain P style separator (group source parts :: es)
      (opening :: (lead ++ inside ++ behindInside ++ [closing]) ++ (gap ++ ns)) := by
  intro trail afterOperand pending genuine trailing steadfast fits
  have whole : opening :: (lead ++ inside ++ behindInside ++ [closing]) ++ (gap ++ ns) ++ trail =
      opening :: ((lead ++ inside ++ behindInside) ++ (closing :: (gap ++ (ns ++ trail)))) := by
    simp
  rw [whole] at genuine ⊢
  have content := allGenuine_append.1 genuine.tail
  have genuineRest := content.2.tail
  have row := allGenuine_append.1 genuineRest
  have balanced := Balanced.padded (insideSet.balanced tokens) content.1 leading trailingInside
  have readable : Readable (lead ++ inside ++ behindInside) := ⟨content.1, balanced.enclosed⟩
  have rest : Balanced (gap ++ (ns ++ trail)) := (balanced_gap between).append
    ((typeset.balanced tokens (allGenuine_append.1 row.2).1).append
      (balanced_layout (allGenuine_append.1 row.2).2 trailing))
  have closes : Closes (lead ++ inside ++ behindInside) (closing :: (gap ++ (ns ++ trail))) :=
    .behind (char?_char isClosing) balanced.openAfter_eq rest.enclosed
  have later : Steadfast P style separator true [] es := steadfast.behind
  have unknown : FunctionName.canonical? (Text.cutBeforeName pending).2 = none := by
    have parts := steadfast.parts
    rw [partedBehind, staysBehind, Bool.and_eq_true, Bool.and_eq_true] at parts
    exact Option.isNone_iff_eq_none.1 parts.1.1
  have parts : erasedEach (read separator false [] (lead ++ inside ++ behindInside)).value =
      erasedEach parts := by
    rw [List.append_assoc] at content ⊢
    obtain ⟨blanks, blank, same⟩ := exists_read_layout content.1 leading false []
    rw [same, List.nil_append, insideAgain (allGenuine_append.1 content.1).2 trailingInside
      (by rw [name_blanks blank]; exact steadfast.inside) (fitsBehind_blanks blank _),
      tokenLeaf_blanks blank]
    rfl
  rw [value_read_group isOpening readable closes unknown, erasedEach_append, erasedEach, erased,
    parts, List.tail_cons, behind.rest later between genuineRest trailing, erasedEach, erased]

/-! ## Arguments that are read again -/

/-- A part has no layout at its ends. -/
theorem Typeset.framed (tokens : ∀ t, P t → t.IsToken) (typeset : Typeset P style e ms)
    (genuine : AllGenuine ms) (stays : steady style e = true) : Framed ms := by
  cases typeset with
  | @leaf t _ holds visible written =>
    rw [steady, if_pos List.isEmpty_nil, beq_iff_eq] at stays
    rw [stays] at written
    exact written.framed (tokens _ holds).trimmed visible
  | group isOpening isClosing =>
    refine ⟨⟨_, rfl, genuine.head.noLayout_char isOpening (by decide)⟩, _, ?_,
      (genuine _ (by simp)).noLayout_char isClosing (by decide)⟩
    rw [← List.cons_append, List.getLast?_concat]
  | @call name _ _ _ inside opening closing known _ isName isOpening isClosing =>
    obtain ⟨noEmpty, letters⟩ := FunctionName.spells_of_mem_known known
    have noBlank : ∀ c ∈ name, Text.isBlank c = false := fun c met =>
      (FunctionName.spelling (letters c met)).2.2.2.2.2
    have trimmed : Text.trim name = name := trimEnds_eq_self
      (fun c first => noBlank c (List.mem_of_head? first))
      fun c last => noBlank c (List.mem_of_getLast? last)
    obtain ⟨m, isFirst, noLayout⟩ := (isName.framed trimmed noEmpty).first
    refine ⟨⟨m, by rw [List.head?_append, isFirst]; rfl, noLayout⟩, closing, ?_,
      (genuine _ (by simp)).noLayout_char isClosing (by decide)⟩
    rw [← List.cons_append, ← List.append_assoc, List.getLast?_concat]
  | @operator op _ written => exact written.framed (by cases op <;> rfl) op.lexeme_ne_nil

theorem TypesetRow.framed (tokens : ∀ t, P t → t.IsToken) (typeset : TypesetRow P style es ms)
    (genuine : AllGenuine ms) (stays : steadyRow style es = true) (nonempty : es ≠ []) :
    Framed ms := by
  induction es generalizing ms with
  | nil => exact absurd rfl nonempty
  | cons e es ih =>
    cases typeset with
    | @cons _ _ ms gap ns first apart between behind =>
      rw [steadyRow, Bool.and_eq_true, Bool.and_eq_true] at stays
      have parts := allGenuine_append.1 genuine
      obtain ⟨⟨m, isFirst, noLayout⟩, last⟩ := first.framed tokens parts.1 stays.1.1
      refine ⟨⟨m, by rw [List.head?_append, isFirst]; rfl, noLayout⟩, ?_⟩
      by_cases more : es = []
      · obtain rfl := more
        cases behind with
        | nil =>
          obtain rfl := between.eq_nil
          rwa [List.append_nil, List.append_nil]
      · obtain ⟨-, n, isLast, noLayoutLast⟩ :=
          ih behind (allGenuine_append.1 parts.2).2 stays.2 more
        exact ⟨n, by rw [List.getLast?_append, List.getLast?_append, isLast]; rfl, noLayoutLast⟩

/-- An argument is read again from its part of the list. -/
theorem erased_readArgument_again {part : List Mark} (tokens : ∀ t, P t → t.IsToken)
    (argument : IsArgument P e) (steadfast : Steadfast P style separator false [] e.row)
    (genuine : AllGenuine part) (closed : ∀ m ∈ part, m.isUnclosed = false)
    (isPart : TypesetPart P style e part)
    (again : ∀ ms, TypesetRow P style e.row ms → ms <:+: part →
      ReadsAgain P style separator e.row ms) :
    (readArgument separator part).erased = e.erased := by
  obtain ⟨lead, ms, trail, rfl, leading, trailing, typeset⟩ := isPart
  have row := (allGenuine_append.1 (allGenuine_append.1 genuine).1).2
  have none : ∀ m ∈ ([] : List Mark), m.isLayout = true := fun _ met =>
    absurd met List.not_mem_nil
  have trimmed : trimmed (lead ++ ms ++ trail) = ms := by
    by_cases nonempty : e.row = []
    · rw [nonempty] at typeset
      cases typeset with
      | nil =>
        rw [Mark.trimmed_eq closed, trimEnds_append leading trailing]
        rfl
    · exact (typeset.framed tokens row steadfast.stays nonempty).trimmed_eq closed leading trailing
  have children : erasedEach (read separator false [] ms).value = erasedEach e.row := by
    have fits : FitsBehind [] e.row :=
      fitsBehind_blanks (fun _ met => absurd met List.not_mem_nil) _
    have behind : AllGenuine (ms ++ []) := by rwa [List.append_nil]
    have same := again ms typeset ⟨lead, trail, rfl⟩ behind none steadfast fits
    rwa [List.append_nil] at same
  rw [readArgument, trimmed, ← argument.argumentOf_row]
  refine erased_argumentOf children fun nothing => ?_
  rw [nothing, erasedEach, eq_comm, erasedEach_eq_nil] at children
  rw [children] at typeset
  cases typeset with
  | nil =>
    rw [row_eq_nil.1 children]
    rfl

theorem readsAgain_call {name source : Text} {arguments : List Expression} {word : List Mark}
    {opening closing : Mark} (tokens : ∀ t, P t → t.IsToken) (known : name ∈ FunctionName.known)
    (filled : arguments ≠ [plain [] []]) (isName : Written name word)
    (isOpening : opening.piece = .char '(') (isClosing : closing.piece = .char ')')
    (each : TypesetArguments P style arguments inside)
    (eachAgain : ∀ a ∈ arguments, IsArgument P a →
      Steadfast P style separator false [] a.row →
      ∀ part ∈ argumentParts separator inside, TypesetPart P style a part →
        (readArgument separator part).erased = a.erased)
    (between : Written (gapBetween (call name source arguments) es) gap)
    (typeset : TypesetRow P style es ns) (behind : ReadsAgain P style separator es ns) :
    ReadsAgain P style separator (call name source arguments :: es)
      (word ++ opening :: (inside ++ [closing]) ++ (gap ++ ns)) := by
  intro trail afterOperand pending genuine trailing steadfast fits
  have whole : word ++ opening :: (inside ++ [closing]) ++ (gap ++ ns) ++ trail =
      word ++ (opening :: (inside ++ (closing :: (gap ++ (ns ++ trail))))) := by
    simp
  rw [whole] at genuine ⊢
  have content := allGenuine_append.1 (allGenuine_append.1 genuine).2.tail
  have genuineRest := content.2.tail
  have row := allGenuine_append.1 genuineRest
  have balanced := each.balanced tokens content.1
  have readable : Readable inside := ⟨content.1, balanced.enclosed⟩
  have rest : Balanced (gap ++ (ns ++ trail)) := (balanced_gap between).append
    ((typeset.balanced tokens (allGenuine_append.1 row.2).1).append
      (balanced_layout (allGenuine_append.1 row.2).2 trailing))
  have closes : Closes inside (closing :: (gap ++ (ns ++ trail))) :=
    .behind (char?_char isClosing) balanced.openAfter_eq rest.enclosed
  have later : Steadfast P style separator true [] es := steadfast.behind
  have letters : ∀ c ∈ name, Text.isNameChar c = true := fun c met =>
    (FunctionName.spelling ((FunctionName.spells_of_mem_known known).2 c met)).2.1
  -- the name is cut off the token again
  have noName : (Text.cutBeforeName pending).2 = (Text.cutBeforeName []).2 := by
    have parts := steadfast.parts
    rw [partedBehind, staysBehind, Bool.and_eq_true, Bool.and_eq_true, List.isEmpty_iff] at parts
    exact parts.1.1
  have cut : (Text.cutBeforeName (pending ++ name)).2 = name := by
    rw [Text.name_append noName, List.nil_append, cutBeforeName_of_names letters]
  have front : (Text.cutBeforeName (pending ++ name)).1 = pending := by
    have both : (Text.cutBeforeName (pending ++ name)).1 ++
        (Text.cutBeforeName (pending ++ name)).2 = pending ++ name :=
      dropEndWhile_append_takeEndWhile _ _
    rw [cut] at both
    exact List.append_cancel_right both
  have isKnown : FunctionName.canonical? (Text.cutBeforeName (pending ++ name)).2 = some name := by
    rw [cut]
    exact FunctionName.canonical?_eq_some.2 ⟨known, FunctionName.uppercase_of_mem_known known⟩
  have readName : (read separator afterOperand pending
      (word ++ (opening :: (inside ++ (closing :: (gap ++ (ns ++ trail))))))).value =
        (read separator afterOperand (pending ++ name)
          (opening :: (inside ++ (closing :: (gap ++ (ns ++ trail)))))).value := by
    rw [← isName.sourceText_eq]
    refine value_read_joins genuine isName.layout
      (isName.char?_ne (not_mem_known known (by decide +kernel))) fun front c behind split => ?_
    have met : Piece.char c ∈ pieces name := by
      rw [← isName.pieces, split]
      simp
    have isLetter := letters c (Text.mem_of_mem_pieces met)
    exact joins_name isLetter
  -- every argument is read again from its part of the list
  have arguments' : erasedEach ((argumentParts separator inside).map (readArgument separator)) =
      erasedEach arguments := by
    have separates := steadfast.separates
    rw [nodesOfEach, List.forall_mem_append, nodes, List.forall_mem_cons] at separates
    obtain ⟨⟨⟨-, free⟩, several⟩, -⟩ := separates.1
    have same := erasedEach_map (f := id)
      (each.argumentParts tokens content.1 several filled free)
      fun a isArgument part isPart set =>
        have known := steadfast.argument isArgument
        eachAgain a isArgument known.1 known.2 part isPart set
    rwa [List.map_id] at same
  rw [readName, value_read_call isOpening readable closes isKnown, front, erasedEach_append,
    erasedEach, erased, arguments', List.tail_cons, behind.rest later between genuineRest trailing,
    erasedEach, erased]

/-! ## Rows -/

/-- The marks of a laid out row are read as the row again. -/
theorem TypesetRow.readsAgain (tokens : ∀ t, P t → t.IsToken) (typeset : TypesetRow P style es ms)
    (closed : ∀ m ∈ ms, m.isUnclosed = false) : ReadsAgain P style separator es ms := by
  induction size : ms.length using Nat.strong_induction_on generalizing es ms with
  | _ n ih =>
    have shorter : ∀ {fs : List Expression} {ns : List Mark}, TypesetRow P style fs ns →
        ns ⊆ ms → ns.length < ms.length → ReadsAgain P style separator fs ns :=
      fun row within less => ih _ (size ▸ less) row (fun m met => closed m (within met)) rfl
    intro trail afterOperand pending genuine trailing steadfast fits
    cases typeset with
    | nil => rw [value_read_layout genuine trailing, erasedEach, List.append_nil]
    | @cons e es ms gap ns first apart between behind =>
      have shows : 0 < ms.length := by
        rw [List.append_assoc] at genuine
        obtain ⟨m, met, -⟩ := first.visible tokens (allGenuine_append.1 genuine).1
        exact List.length_pos_of_mem met
      have again : ReadsAgain P style separator es ns :=
        shorter behind (fun m met => by simp [met]) (by simp only [List.length_append]; omega)
      cases first with
      | leaf holds visible written =>
        exact readsAgain_leaf tokens holds visible written
          (fun f met => by simpa using fun isLeaf => apart f met ⟨rfl, isLeaf⟩) between behind again
          genuine trailing steadfast fits
      | group isOpening isClosing leading trailingInside inside =>
        have insideAgain := shorter inside (fun m met => by simp [met])
          (by simp only [List.length_append, List.length_cons]; omega)
        exact readsAgain_group tokens isOpening isClosing leading trailingInside inside insideAgain
          between behind again genuine trailing steadfast fits
      | @call name source arguments word inside opening closing known filled isName isOpening
          isClosing each =>
        have content : AllGenuine inside := genuine.of_subset fun m met => by simp [met]
        refine readsAgain_call tokens known filled isName isOpening isClosing each
          (fun a _ argument known part isPart set => ?_) between behind again genuine trailing
          steadfast fits
        have within := isInfix_of_mem_argumentParts (each.balanced tokens content).enclosed isPart
        have inner : part ⊆ word ++ opening :: (inside ++ [closing]) ++ (gap ++ ns) :=
          fun m met => by simp [within.subset met]
        refine erased_readArgument_again tokens argument known
          (content.of_subset within.subset) (fun m met => closed m (inner met)) set
          fun row typeset inPart => shorter typeset (fun m met => inner (inPart.subset met)) ?_
        have size := (inPart.trans within).length_le
        simp only [List.length_append, List.length_cons]
        omega
      | operator written =>
        exact readsAgain_operator tokens written between behind again genuine trailing steadfast
          fits

end Expression

/-! ## Formulas -/

/-- The parts of a formula are read again from what it is beautified to. -/
theorem Formula.Relaid.erased_tree {style : Style} {t : Text} {es : List Expression}
    (relaid : Relaid style t es) (parts : partedBehind style [] es = true)
    (stays : steadyRow style es = true) :
    (ofText (beautify style t)).tree.erased = (ofText t).tree.erased := by
  have genuine := allGenuine_marks (ofText (beautify style t)).body
  have enclosed := (relaid.typeset.balanced (fun _ => And.right) genuine).enclosed
  have joins : JoinedRow false es := by
    rw [relaid.isRead]
    exact joinedRow_read false [] relaid.readable ⟨proper_marks relaid.closed, Text.joined_nil⟩
  have closed := closed_of_proper (proper_marks relaid.laidClosed)
  have steadfast : Steadfast _ style _ false (Text.cutBeforeName []).2 es :=
    ⟨relaid.row, joins, relaid.separates, parts, stays⟩
  have none : ∀ m ∈ ([] : List Mark), m.isLayout = true := fun _ met =>
    absurd met List.not_mem_nil
  -- the row is read at the beginning of the body and reaches to its end
  have again := relaid.typeset.readsAgain (fun _ => And.right) closed
    (by rwa [List.append_nil]) none steadfast
    (fitsBehind_blanks (fun _ met => absurd met List.not_mem_nil) es)
  have tree := (ofText (beautify style t)).tree_parts
  have visible := (ofText (beautify style t)).body_eq_nil_of_parts (trim_body_ofText _)
  rw [enclosed.cutAtClose_eq, strayLeaf, List.append_nil] at tree visible
  rw [List.append_nil] at again
  rw [tree, relaid.whole]
  refine erased_plain again fun empty => ?_
  have nothing : es = [] := by
    rw [empty] at again
    exact erasedEach_eq_nil.1 again.symm
  rw [visible empty, relaid.nothing nothing]

/-- A beautified formula stays as it is if the parts of the formula are read from it again: no leaf
runs into what follows it, all keep their texts, and nothing that gets a line of its own begins with
a connector. -/
theorem beautify_beautify {style : Style} {t : Text} {tree : Expression}
    (narrow : style.indentSize ≤ widestIndent) (accepted : (Formula.ofText t).tree? = .ok tree)
    (shelters : tree.sheltered style 0 = true) (parts : tree.parted style = true)
    (stays : tree.steady style = true) :
    beautify style (beautify style t) = beautify style t := by
  obtain ⟨es, relaid⟩ := Formula.relaid narrow accepted shelters
  obtain ⟨rfl, -⟩ := (Formula.ofText t).paired_of_tree? accepted
  have row : steadyRow style es = true := by
    rw [relaid.whole, steady] at stays
    split at stays
    · next empty => rw [List.isEmpty_iff.1 empty, steadyRow]
    · exact stays
  rw [relaid.whole, parted] at parts
  exact beautify_of_erased narrow (Formula.hasEquals_beautify narrow t)
    (relaid.erased_tree parts row)

/-- A group behind a number, an exponent with a sign, a range, and a leaf in front of a call. -/
theorem beautify_beautify_nested :
    beautify .standard "=1 (a,b)*-2E+3&if(a1:b2<\"a  b\",x!pi( ))".toList ≠
        "=1 (a,b)*-2E+3&if(a1:b2<\"a  b\",x!pi( ))".toList ∧
      beautify .standard (beautify .standard
          "=1 (a,b)*-2E+3&if(a1:b2<\"a  b\",x!pi( ))".toList) =
        beautify .standard "=1 (a,b)*-2E+3&if(a1:b2<\"a  b\",x!pi( ))".toList := by
  have isOk : (Formula.ofText "=1 (a,b)*-2E+3&if(a1:b2<\"a  b\",x!pi( ))".toList).tree?.isOk =
      true := by
    decide +kernel
  have holds :
      let tree := (Formula.ofText "=1 (a,b)*-2E+3&if(a1:b2<\"a  b\",x!pi( ))".toList).tree
      tree.sheltered .standard 0 = true ∧ tree.parted .standard = true ∧
        tree.steady .standard = true := by
    decide +kernel
  refine ⟨by decide +kernel, ?_⟩
  cases accepted :
      (Formula.ofText "=1 (a,b)*-2E+3&if(a1:b2<\"a  b\",x!pi( ))".toList).tree? with
  | error fault => rw [accepted] at isOk; cases isOk
  | ok tree =>
    obtain ⟨rfl, -⟩ := Formula.paired_of_tree? _ accepted
    exact beautify_beautify (by decide) accepted holds.1 holds.2.1 holds.2.2

/-- A blank that the second pass takes away lets the third one find a longer name. -/
theorem beautify_third_pass_changes :
    (Formula.ofText "A SI N (1)".toList).tree?.isOk = true ∧
      (Formula.ofText "A SI N (1)".toList).body.ConnectorFree ∧
      beautify .standard (beautify .standard (beautify .standard "A SI N (1)".toList)) ≠
        beautify .standard (beautify .standard "A SI N (1)".toList) := by
  refine ⟨by decide +kernel, ?_, by decide +kernel⟩
  show ∀ p ∈ _, _
  decide +kernel

end SheetFormula
