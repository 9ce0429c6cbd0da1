import SheetFormula.Proofs.Format.Beautify

/-!
# The equals sign in front

A beautified formula begins with an equals sign exactly if the formula does, blanks aside
(`head?_beautify`). An operator is the first part of a body only if the body begins with it
(`head?_value_read`), no name and no other part begins with an equals sign, and the layout of parts
begins as they do on one line.

## Main definitions

* `Mark.BeginsPlainly` — a pending token, or else the marks behind it, begins with no equals sign
-/

namespace SheetFormula

open Expression

theorem ne_equals_of_mem_known {name : Text} (isKnown : name ∈ FunctionName.known) :
    name.head? ≠ some '=' := by
  intro first
  obtain ⟨-, letters⟩ := FunctionName.spells_of_mem_known isKnown
  exact absurd (letters '=' (List.mem_of_head? first)) (by decide)

/-- A token that begins with no blank is a leaf that begins with the same character. -/
theorem displayEach_tokenLeaf_append {pending : Text} {c : Char} (first : pending.head? = some c)
    (noBlank : Text.isBlank c = false) (es : List Expression) :
    (displayEach (tokenLeaf pending ++ es)).flatten.head? = some c := by
  obtain ⟨rest, rfl⟩ := List.head?_eq_some_iff.1 first
  have trimmed : Text.trim (c :: rest) = c :: dropEndWhile Text.isBlank rest :=
    trimEnds_cons_of_not noBlank rest
  rw [tokenLeaf, trimmed, if_neg Bool.noConfusion, List.singleton_append, displayEach,
    List.flatten_cons, leaf, display, if_pos List.isEmpty_nil]
  rfl

theorem displayEach_tokenLeaf_nil (es : List Expression) :
    displayEach (tokenLeaf [] ++ es) = displayEach es :=
  rfl

namespace Mark

/-- What is read begins with neither a blank nor an equals sign: the pending token, or else the
first of the marks behind it. -/
inductive BeginsPlainly : Text → List Mark → Prop where
  | token {pending : Text} {ms : List Mark} {c : Char} (first : pending.head? = some c)
      (noBlank : Text.isBlank c = false) (noEquals : c ≠ '=') : BeginsPlainly pending ms
  | none : BeginsPlainly [] []
  | mark {m : Mark} {ms : List Mark} (visible : m.isLayout = false)
      (noEquals : m.char? ≠ some '=') : BeginsPlainly [] (m :: ms)

variable {separator : Separator} {pending : Text} {mark : Mark} {ms rest : List Mark}

/-- A token in front of a part that does not begin with an equals sign. -/
theorem BeginsPlainly.part (begins : BeginsPlainly pending (mark :: rest)) {e : Expression}
    {es : List Expression} {c : Char} (shows : e.display.head? = some c) (noEquals : c ≠ '=') :
    (displayEach (tokenLeaf pending ++ e :: es)).flatten.head? ≠ some '=' := by
  cases begins with
  | token first noBlank others =>
    rw [displayEach_tokenLeaf_append first noBlank]
    exact fun same => others (Option.some.inj same)
  | mark =>
    rw [displayEach_tokenLeaf_nil, displayEach, List.flatten_cons, List.head?_append, shows]
    exact fun same => noEquals (Option.some.inj same)

/-- What joins an empty token becomes its beginning. -/
theorem BeginsPlainly.join (begins : BeginsPlainly pending (mark :: rest)) {text : Text}
    (first : mark.isLayout = false → mark.char? ≠ some '=' →
      ∃ c, text.head? = some c ∧ Text.isBlank c = false ∧ c ≠ '=') :
    BeginsPlainly (pending ++ text) rest := by
  cases begins with
  | token isFirst noBlank noEquals =>
    exact .token (by rw [List.head?_append, isFirst]; rfl) noBlank noEquals
  | mark visible noEquals =>
    obtain ⟨c, isFirst, noBlank, others⟩ := first visible noEquals
    exact .token isFirst noBlank others

/-- Without the name at its end, the token begins as before, or the parenthesis does. -/
theorem BeginsPlainly.cutBeforeName (begins : BeginsPlainly pending (mark :: rest))
    (genuine : mark.Genuine) (isOpening : mark.piece = .char '(') :
    BeginsPlainly (Text.cutBeforeName pending).1 (mark :: rest) := by
  have whole : (Text.cutBeforeName pending).1 ++ (Text.cutBeforeName pending).2 = pending :=
    dropEndWhile_append_takeEndWhile Text.isNameChar pending
  cases front : (Text.cutBeforeName pending).1 with
  | nil =>
    have opened := char?_char isOpening
    refine .mark ?_ (by rw [opened]; decide)
    by_contra layout
    exact genuine.char?_ne_of_layout (by simpa using layout) (by decide) (by decide) opened
  | cons d ds =>
    rw [front] at whole
    cases begins with
    | token first noBlank noEquals =>
      rw [← whole] at first
      exact .token first noBlank noEquals
    | mark => cases whole

/-- The parts that are read begin with no equals sign if the token or the marks do not. -/
theorem head?_value_read (separator : Separator) (afterOperand : Bool) (pending : Text)
    (readable : Readable ms) (begins : BeginsPlainly pending ms) :
    (displayEach (read separator afterOperand pending ms).value).flatten.head? ≠ some '=' := by
  revert begins
  refine read_induction separator
    (motive := fun afterOperand pending ms => BeginsPlainly pending ms →
      (displayEach (read separator afterOperand pending ms).value).flatten.head? ≠ some '=')
    ?nil ?literal ?connector ?operator ?char ?call ?group afterOperand pending readable
  case nil =>
    intro afterOperand pending begins
    rw [read_nil, Transcript.value_pure, ← List.append_nil (tokenLeaf pending)]
    cases begins with
    | token first noBlank noEquals =>
      rw [displayEach_tokenLeaf_append first noBlank]
      exact fun same => noEquals (Option.some.inj same)
    | none =>
      rw [displayEach_tokenLeaf_nil, displayEach]
      exact nofun
  case literal =>
    intro afterOperand pending mark rest text closed readable isLiteral ih begins
    rw [read_literal isLiteral]
    have quote := readable.genuine.head.quote_of_literal text closed isLiteral
    exact ih (begins.join fun _ _ => ⟨'"', quote, by decide, by decide⟩)
  case connector =>
    intro afterOperand pending mark rest c _ isChar noOpening connector ih begins
    rw [read_connector isChar noOpening connector]
    rw [Bool.and_eq_true] at connector
    refine ih (begins.join fun visible _ => ?_)
    rw [connector.1] at visible
    cases visible
  case operator =>
    intro afterOperand pending mark rest c op _ isChar noOpening noConnector standalone isLexeme _
      _ begins
    rw [read_operator isChar noOpening noConnector standalone, Transcript.value_bind,
      Transcript.value_pure]
    -- in front of a token the operator does not show, and else the marks begin with it
    have isFirst : op.lexeme.head? = some c := by
      rw [List.map_cons, isChar] at isLexeme
      cases op <;> (obtain ⟨same, -⟩ := List.cons.inj isLexeme; cases same; rfl)
    cases begins with
    | token first noBlank noEquals =>
      rw [displayEach_tokenLeaf_append first noBlank]
      exact fun same => noEquals (Option.some.inj same)
    | mark _ noEquals =>
      rw [displayEach_tokenLeaf_nil, displayEach, List.flatten_cons, display, List.head?_append,
        isFirst]
      rw [char?_char isChar] at noEquals
      exact noEquals
  case char =>
    intro afterOperand pending mark rest c readable isChar noOpening _ noConnector joins ih begins
    rw [read_char isChar noOpening noConnector joins]
    refine ih (begins.join fun visible noEquals => ⟨c, rfl, ?_, ?_⟩)
    · by_contra blank
      rw [readable.genuine.head.layout_of_blank c isChar (by simpa using blank)] at visible
      cases visible
    · rintro rfl
      exact noEquals (char?_char isChar)
  case call =>
    intro afterOperand pending opening inside tail name readable isOpening insideReadable closes _
      known _ _ begins
    have isKnown := (FunctionName.canonical?_eq_some.1 known).1
    obtain ⟨c, letters, rfl⟩ := List.exists_cons_of_ne_nil
      (FunctionName.spells_of_mem_known isKnown).1
    have noEquals : c ≠ '=' := fun same => ne_equals_of_mem_known isKnown (congrArg some same)
    rw [value_read_call isOpening insideReadable closes known]
    exact (begins.cutBeforeName readable.genuine.head isOpening).part (by rw [display]; rfl)
      noEquals
  case group =>
    intro afterOperand pending opening inside tail _ isOpening insideReadable closes _ unknown _ _
      begins
    rw [value_read_group isOpening insideReadable closes unknown]
    exact begins.part (by rw [display]; rfl) (by decide)

/-- Up to a `)`, marks begin as they did, or are none. -/
theorem BeginsPlainly.cutAtClose (begins : BeginsPlainly [] ms) (depth : Nat) :
    BeginsPlainly [] (Mark.cutAtClose depth ms).1 := by
  cases begins with
  | token first _ _ => cases first
  | none => exact .none
  | mark visible noEquals =>
    rw [Mark.cutAtClose]
    split
    · exact .none
    · exact .mark visible noEquals

theorem beginsPlainly_marks {t : Text} (trimmed : Text.trim t = t)
    (noEquals : t.head? ≠ some '=') : BeginsPlainly [] (marks t) := by
  cases t with
  | nil =>
    rw [marks, pieces]
    exact .none
  | cons c t =>
    have noBlank : Text.isBlank c = false := by
      have head : (Text.trim (c :: t)).head? = some c := by rw [trimmed]; rfl
      exact head?_trimEnds head
    rw [marks, pieces]
    split
    · exact .mark rfl fun isEquals => by cases isEquals
    · refine .mark ?_ fun isEquals => noEquals isEquals
      show Text.isLayout false c = false
      rw [Text.isLayout, noBlank, Bool.false_and, Bool.or_false]

end Mark

/-! ## Formulas -/

namespace Formula

open Mark

/-- What is laid out of a body begins with an equals sign only if the body does. -/
theorem head?_layout_tree (f : Formula) (style : Style) (trimmed : Text.trim f.body = f.body)
    (noEquals : f.body.head? ≠ some '=') : (layout style 0 f.tree).head? ≠ some '=' := by
  intro first
  have row := f.row_parts
  have visible := f.body_eq_nil_of_parts trimmed
  have behind := f.tail_strayLeaf
  have readable := readable_fst_cutAtClose (allGenuine_marks f.body)
  have begins := head?_value_read f.separator false [] readable
    ((beginsPlainly_marks trimmed noEquals).cutAtClose 0)
  rw [tree_parts] at first
  generalize (Mark.read f.separator false [] _).value = parts at row visible begins first
  generalize Mark.strayLeaf _ = tail at visible behind first
  cases row with
  | @cons e es part _ _ =>
    -- the first part begins on one line as it is laid out
    have firsts : ∃ c, (layout style 0 e).head? = some c ∧ _ :=
      part.head?_layout fun t token => token.trimmed
    obtain ⟨c, isFirst, shows, -⟩ := firsts
    rw [List.cons_append, layout_plain, if_neg Bool.noConfusion, layoutSequence_cons,
      List.head?_append, isFirst] at first
    rw [displayEach, List.flatten_cons, List.head?_append, shows] at begins
    exact begins first
  | nil =>
    cases behind with
    | none =>
      rw [visible rfl, List.append_nil, layout_plain, if_pos List.isEmpty_nil, Style.leaf_nil]
        at first
      cases first
    | @stray position text _ isFirst _ =>
      have leaf : (style.leaf text).head? = some ')' := Style.head?_leaf isFirst (by decide)
      rw [List.nil_append, layout_plain, if_neg Bool.noConfusion, layoutSequence_cons,
        Expression.leaf, layout_plain, if_pos List.isEmpty_nil, List.head?_append, leaf] at first
      cases first

theorem hasEquals_ofText (t : Text) :
    (ofText t).hasEquals = true ↔ (Text.trim t).head? = some '=' := by
  unfold ofText
  split
  · next trimmed => simp [trimmed]
  · next other =>
    refine ⟨nofun, fun first => ?_⟩
    obtain ⟨rest, trimmed⟩ := List.head?_eq_some_iff.1 first
    exact absurd trimmed (other rest)

/-- A formula keeps its equals sign when another text becomes its body. -/
theorem hasEquals_withEquals (f : Formula) {t : Text} (begins : t = [] ∨ t.Begins)
    (plain : f.hasEquals = false → t.head? ≠ some '=') :
    (ofText (f.withEquals t)).hasEquals = f.hasEquals := by
  rw [Bool.eq_iff_iff, hasEquals_ofText, withEquals]
  cases equals : f.hasEquals with
  | true =>
    have front : Text.trim ('=' :: t) = '=' :: dropEndWhile Text.isBlank t :=
      trimEnds_cons_of_not (by decide) t
    rw [if_pos rfl, front]
    simp
  | false =>
    have noEquals : (Text.trim t).head? ≠ some '=' := by
      rcases begins with rfl | ⟨c, rest, rfl, noBlank⟩
      · exact fun none => by cases none
      · rw [Text.trim, trimEnds_cons_of_not noBlank]
        exact plain equals
    simpa using noEquals

theorem hasEquals_beautify {style : Style} (narrow : style.indentSize ≤ widestIndent) (t : Text) :
    (ofText (beautify style t)).hasEquals = (ofText t).hasEquals := by
  have trimmed := trim_body_ofText t
  rw [beautify_eq narrow]
  exact hasEquals_withEquals _ ((ofText t).begins_layout_tree style trimmed) fun noEquals =>
    (ofText t).head?_layout_tree style trimmed (head?_body_ofText noEquals)

/-- An equals sign in front of a text without one leaves the body as it is. -/
theorem ofText_cons_equals {b : Text} (plain : (Text.trim b).head? ≠ some '=') :
    ofText ('=' :: b) = ⟨true, (ofText b).body⟩ ∧ (ofText b).hasEquals = false := by
  have noEquals : (ofText b).hasEquals = false := by
    rw [← Bool.not_eq_true, hasEquals_ofText]
    exact plain
  have body : (ofText b).body = Text.trim b := by
    unfold ofText at noEquals ⊢
    split
    · next trimmed =>
      rw [trimmed] at plain
      exact absurd rfl plain
    · rfl
  have front : Text.trim ('=' :: b) = '=' :: dropEndWhile Text.isBlank b :=
    trimEnds_cons_of_not (by decide) b
  have inside : Text.trim (dropEndWhile Text.isBlank b) = Text.trim b := trimEnds_dropEndWhile b
  refine ⟨?_, noEquals⟩
  rw [ofText, front, body, ← inside]
  rfl

end Formula

/-- A beautified formula begins with an equals sign exactly if the formula does, and an equals sign
in front of a formula without one is kept and changes nothing else. -/
theorem head?_beautify {style : Style} (narrow : style.indentSize ≤ widestIndent) (t : Text) :
    ((beautify style t).head? = some '=' ↔ (Text.trim t).head? = some '=') ∧
      ∀ b, t = '=' :: b → (Text.trim b).head? ≠ some '=' →
        beautify style t = '=' :: beautify style b := by
  constructor
  · rw [beautify_eq narrow, Formula.withEquals, ← Formula.hasEquals_ofText]
    cases equals : (Formula.ofText t).hasEquals with
    | true => simp
    | false =>
      have plain := (Formula.ofText t).head?_layout_tree style (Formula.trim_body_ofText t)
        (Formula.head?_body_ofText equals)
      simpa using plain
  · rintro b rfl plain
    obtain ⟨whole, noEquals⟩ := Formula.ofText_cons_equals plain
    have same : (Formula.ofText ('=' :: b)).tree = (Formula.ofText b).tree := by
      rw [whole]
      rfl
    have kept : (Formula.ofText b).withEquals (layout style 0 (Formula.ofText b).tree) =
        layout style 0 (Formula.ofText b).tree :=
      if_neg (by rw [noEquals]; exact Bool.false_ne_true)
    rw [beautify_eq narrow, beautify_eq narrow, same, kept, whole]
    rfl

/-- A sign, an equals sign further inside, and a `)` without a partner. -/
theorem head?_beautify_signed :
    ((beautify .standard " -1=a)".toList).head? = some '=' ↔
        (Text.trim " -1=a)".toList).head? = some '=') ∧
      beautify .standard "= -1=a)".toList = '=' :: beautify .standard " -1=a)".toList :=
  ⟨(head?_beautify (by decide) " -1=a)".toList).1,
    (head?_beautify (by decide) "= -1=a)".toList).2 " -1=a)".toList rfl (by decide +kernel)⟩

end SheetFormula
