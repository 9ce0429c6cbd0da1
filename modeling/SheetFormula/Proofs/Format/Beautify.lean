import SheetFormula.Proofs.Format.Essence
import SheetFormula.Proofs.Reading.Shape
import SheetFormula.Proofs.Text.Capitals

/-!
# Beautified formulas

A beautified formula differs from the one that was entered in its layout only, apart from the `)`
that it gets for every parenthesis left open (`essence_beautify`). The body that is read from the
result is the text that was laid out, since this begins with neither a blank nor a further equals
sign.

## Main definitions

* `Text.Begins` — texts that begin with no blank
-/

namespace SheetFormula

/-! ## The first character -/

namespace Text

/-- The text begins with a character that is no blank. -/
def Begins (t : Text) : Prop :=
  ∃ c rest, t = c :: rest ∧ isBlank c = false

theorem Begins.append {s : Text} (begins : Begins s) (t : Text) : Begins (s ++ t) := by
  obtain ⟨c, rest, rfl, noBlank⟩ := begins
  exact ⟨c, rest ++ t, rfl, noBlank⟩

theorem begins_trim {t : Text} (visible : (trim t).isEmpty = false) : Begins (trim t) := by
  cases same : trim t with
  | nil => rw [same] at visible; cases visible
  | cons c rest =>
    have head : (trimEnds isBlank t).head? = some c := by rw [← trim, same]; rfl
    exact ⟨c, rest, rfl, head?_trimEnds head⟩

end Text

namespace Expression

variable {P : Text → Prop} {style : Style} {depth : Nat} {e : Expression} {es : List Expression}

/-- A part begins as it does on one line, and with no blank. -/
theorem InRow.head?_layout (part : InRow P e) (trims : ∀ t, P t → Text.trim t = t) :
    ∃ c, (layout style depth e).head? = some c ∧ e.display.head? = some c ∧
      Text.isBlank c = false := by
  cases part with
  | @leaf t token visible =>
    obtain ⟨c, rest, rfl⟩ := List.exists_cons_of_ne_nil visible
    have first : (c :: rest).head? = some c := rfl
    have noBlank : Text.isBlank c = false := head?_trimEnds ((trims _ token).symm ▸ first)
    refine ⟨c, ?_, rfl, noBlank⟩
    rw [layout_plain, if_pos List.isEmpty_nil]
    exact Style.head?_leaf first noBlank
  | group row =>
    refine ⟨'(', ?_, by rw [display]; rfl, by decide⟩
    rw [layout_group, groupText]
    split <;> rfl
  | @call name source arguments known each =>
    obtain ⟨noEmpty, letters⟩ := FunctionName.spells_of_mem_known known
    obtain ⟨c, rest, rfl⟩ := List.exists_cons_of_ne_nil noEmpty
    have noBlank := (FunctionName.spelling (letters c List.mem_cons_self)).2.2.2.2.2
    refine ⟨c, ?_, by rw [display]; rfl, noBlank⟩
    rw [layout_call known, callText]
    split
    · rfl
    · split <;> rfl
  | operator op =>
    rw [layout_operator, display]
    cases op <;> exact ⟨_, rfl, rfl, by decide⟩

theorem Row.head?_layout (row : Row P es) (trims : ∀ t, P t → Text.trim t = t) {c : Char}
    (first : (layoutSequence style depth es).head? = some c) :
    (displayEach es).flatten.head? = some c ∧ Text.isBlank c = false := by
  cases row with
  | nil =>
    rw [layoutSequence_nil] at first
    cases first
  | cons part _ _ =>
    obtain ⟨d, begins, shows, noBlank⟩ := part.head?_layout trims
    rw [layoutSequence_cons, List.head?_append, begins] at first
    obtain rfl := Option.some.inj first
    rw [displayEach, List.flatten_cons, List.head?_append, shows]
    exact ⟨rfl, noBlank⟩

end Expression

/-! ## Formulas -/

namespace Formula

/-- What is laid out of a formula begins with no blank, unless the formula is empty. -/
theorem begins_layout_tree (f : Formula) (style : Style) (trimmed : Text.trim f.body = f.body) :
    layout style 0 f.tree = [] ∨ (layout style 0 f.tree).Begins := by
  have row := f.row_parts
  have visible := f.body_eq_nil_of_parts trimmed
  have behind := f.tail_strayLeaf
  rw [tree_parts]
  generalize (Mark.read f.separator false [] _).value = parts at row visible ⊢
  generalize Mark.strayLeaf _ = tail at visible behind ⊢
  cases row with
  | @cons e es part _ _ =>
    obtain ⟨c, first, -, noBlank⟩ := part.head?_layout fun t token => token.trimmed
    obtain ⟨rest, whole⟩ := List.head?_eq_some_iff.1 first
    right
    rw [List.cons_append, layout_plain, if_neg Bool.noConfusion, layoutSequence_cons, whole]
    exact ⟨c, _, rfl, noBlank⟩
  | nil =>
    cases behind with
    | none =>
      left
      rw [visible rfl, List.append_nil, layout_plain, if_pos List.isEmpty_nil, Style.leaf_nil]
    | @stray position text _ begins _ =>
      have noBlank : Text.isBlank ')' = false := by decide
      have first : (style.leaf text).head? = some ')' := Style.head?_leaf begins noBlank
      obtain ⟨rest, whole⟩ := List.head?_eq_some_iff.1 first
      right
      rw [List.nil_append, layout_plain, if_neg Bool.noConfusion, layoutSequence_cons,
        Expression.leaf, layout_plain, if_pos List.isEmpty_nil, whole]
      exact ⟨')', _, rfl, noBlank⟩

theorem begins_body_ofText (t : Text) : (ofText t).body = [] ∨ (ofText t).body.Begins := by
  rw [← trim_body_ofText t]
  cases visible : (Text.trim (ofText t).body).isEmpty with
  | true => exact .inl (List.isEmpty_iff.1 visible)
  | false => exact .inr (Text.begins_trim visible)

/-- A text is read as the body of the formula that it makes up with its equals sign. -/
theorem body_ofText_withEquals (f : Formula) {t : Text} (begins : t = [] ∨ t.Begins)
    (plain : f.hasEquals = false → t.head? ≠ some '=') :
    (ofText (f.withEquals t)).body = dropEndWhile Text.isBlank t := by
  have trims : Text.trim t = dropEndWhile Text.isBlank t := by
    rcases begins with rfl | ⟨c, rest, rfl, noBlank⟩
    · rfl
    · rw [Text.trim, trimEnds_cons_of_not noBlank, dropEndWhile_cons_of_not noBlank]
  unfold withEquals
  split
  · have front : Text.trim ('=' :: t) = '=' :: dropEndWhile Text.isBlank t :=
      trimEnds_cons_of_not (by decide) t
    have inside : Text.trim (dropEndWhile Text.isBlank t) = dropEndWhile Text.isBlank t := by
      rw [← trims]
      exact trimEnds_trimEnds t
    rw [ofText, front]
    exact inside
  · next noEquals =>
    rw [Bool.not_eq_true] at noEquals
    rw [ofText, trims]
    split
    · next rest whole =>
      have head : t.head? = some '=' := by
        rw [← dropEndWhile_append_takeEndWhile Text.isBlank t, whole]
        rfl
      exact absurd head (plain noEquals)
    · rfl

/-- Without an equals sign of its own, a formula does not begin with one. -/
theorem head?_body_ofText {t : Text} (noEquals : (ofText t).hasEquals = false) :
    (ofText t).body.head? ≠ some '=' := by
  intro head
  unfold ofText at noEquals head
  split at head
  · next equals =>
    rw [equals] at noEquals
    cases noEquals
  · next different =>
    obtain ⟨rest, whole⟩ := List.head?_eq_some_iff.1 head
    exact different rest whole

end Formula

/-- An essence begins with an equals sign only if its text does. -/
theorem head?_essence {c : Char} (rest : Text) (noBlank : Text.isBlank c = false) :
    ∃ first, (Text.essence (c :: rest)).head? = some first ∧ (first = '=' → c = '=') := by
  obtain ⟨first, more, same, origin⟩ := Text.essential_eq_cons c
  refine ⟨first, ?_, origin⟩
  have kept : Text.essentialAt false false c = first :: more := by
    simp [Text.essentialAt, Text.isLayout, noBlank, same]
  rw [Text.essence_eq, Text.essenceFrom, kept]
  rfl

/-- What has the essence of a body, apart from `)` at the end, is read with its own essence behind
the equals sign of the formula. -/
theorem Formula.essence_body_withEquals {t u : Text} {count : Nat} (begins : u = [] ∨ u.Begins)
    (closed : Text.quotedAfter false u = false)
    (same : u.essence = (ofText t).body.essence ++ List.replicate count ')') :
    (ofText ((ofText t).withEquals u)).body.essence = u.essence := by
  rw [body_ofText_withEquals _ begins, Text.essence_dropEndWhile closed]
  -- without an equals sign in front, the essence does not begin with one either
  intro noEquals head
  obtain ⟨rest, rfl⟩ := List.head?_eq_some_iff.1 head
  have first : ((ofText t).body.essence ++ List.replicate count ')').head? = some '=' := by
    rw [← same, Text.essence_eq]
    rfl
  rcases begins_body_ofText t with empty | ⟨c, others, body, noBlank⟩
  · rw [empty, Text.essence_nil, List.nil_append] at first
    cases List.eq_of_mem_replicate (List.mem_of_head? first)
  · obtain ⟨d, isFirst, origin⟩ := head?_essence others noBlank
    rw [body, List.head?_append, isFirst] at first
    refine head?_body_ofText noEquals ?_
    rw [body, origin (Option.some.inj first)]
    rfl

/-- Beautifying changes the layout of a formula only, and closes its parentheses. -/
theorem essence_beautify (style : Style) (t : Text) (narrow : style.indentSize ≤ widestIndent)
    (closed : (Formula.ofText t).body.LiteralsClosed)
    (free : (Formula.ofText t).body.ConnectorFree) :
    (Formula.ofText (beautify style t)).body.essence =
        (Formula.ofText t).body.essence ++ List.replicate
          ((Formula.ofText t).faults.countP Fault.isUnclosedParenthesis) ')' ∧
      ∀ position, .unmatchedCloseParenthesis position ∈ (Formula.ofText t).faults →
        (Formula.ofText t).faults.countP Fault.isUnclosedParenthesis = 0 := by
  have yields : Text.Yields (layout style 0 (Formula.ofText t).tree) _ :=
    yields_layout style 0 _ ((Formula.ofText t).isTidy_tree closed free)
  have begins := (Formula.ofText t).begins_layout_tree style (Formula.trim_body_ofText t)
  have same := (Text.essence_eq _).trans (yields.essence false)
  rw [(Formula.ofText t).essence_tree closed] at same
  refine ⟨?_, fun position stray => Formula.countP_of_stray _ closed stray⟩
  rw [beautify_eq narrow, Formula.essence_body_withEquals begins yields.closed same, same]

/-- A call in small letters, with blanks, a quoted separator and no `)`. -/
theorem essence_beautify_unclosed_sum :
    (Formula.ofText (beautify .standard "=sum( a1 ,\"x; y\"".toList)).body.essence =
      "SUM(A1,\"x; y\")".toList := by
  have body : (Formula.ofText "=sum( a1 ,\"x; y\"".toList).body = "sum( a1 ,\"x; y\"".toList := by
    decide +kernel
  have changed := (essence_beautify .standard "=sum( a1 ,\"x; y\"".toList (by decide)
    (by rw [body]; show ∀ p ∈ _, _; decide +kernel)
    (by rw [body]; show ∀ p ∈ _, _; decide +kernel)).1
  rw [changed, body]
  decide +kernel

end SheetFormula
