import SheetFormula.Proofs.Format.Misnamed

/-!
# Wider limits

The limits of a style decide only about calls, and no call with another call inside it stays on one
line. So where two styles differ in their limits only, what holds no call is laid out the same
(`layout_eq_of_callFree`), and a call that one of them breaks and the other does not has the same
arguments in both. Wider limits therefore never add a line (`count_formatted_le`).

## Main definitions

* `Style.Widens` — the same style with limits that are no narrower
-/

namespace SheetFormula

/-- A style with wider limits on what a call keeps on one line, and the same settings otherwise. -/
structure Style.Widens (wide narrow : Style) : Prop where
  indicators : wide.useNestingIndicators = narrow.useNestingIndicators
  spacing : wide.useOperatorSpacing = narrow.useOperatorSpacing
  indent : wide.indentSize = narrow.indentSize
  length : narrow.maxInlineLength ≤ wide.maxInlineLength
  params : narrow.maxInlineParams ≤ wide.maxInlineParams

/-! ## Line breaks of the forms -/

section Counts

variable {style : Style} {depth : Nat} {ts : List Text}

theorem count_spaces (n : Nat) : (Text.spaces n).count '\n' = 0 := by
  apply List.count_eq_zero_of_not_mem
  intro met
  exact absurd (List.eq_of_mem_replicate met) (by decide)

theorem count_indent : (style.indent depth).count '\n' = 0 :=
  count_spaces _

theorem count_argumentConnector (isLast : Bool) :
    (argumentConnector depth isLast).count '\n' = 0 := by
  cases depth with
  | zero => rfl
  | succ outer =>
    rw [argumentConnector, List.count_append, count_spaces]
    cases isLast <;> decide

theorem count_joined : (Text.joined [';', ' '] ts).count '\n' = ts.flatten.count '\n' := by
  induction ts with
  | nil => rfl
  | cons t ts ih =>
    cases ts with
    | nil => simp [Text.joined]
    | cons => simp [Text.joined, ih]

/-- Every argument ends its line. -/
theorem count_argumentLines :
    (argumentLines style depth ts).count '\n' = ts.flatten.count '\n' + ts.length := by
  induction ts with
  | nil => rfl
  | cons t ts ih =>
    have connector : (if style.useNestingIndicators then
        argumentConnector (depth + 1) ts.isEmpty else []).count '\n' = 0 := by
      split
      · exact count_argumentConnector _
      · rfl
    have lineEnd : (if ts.isEmpty then ([] : Text) else [';']).count '\n' = 0 := by
      split <;> decide
    simp only [argumentLines, List.count_append, List.count_cons_self, List.flatten_cons,
      List.length_cons, count_indent, connector, lineEnd, ih]
    omega

theorem count_callInline (name : Text) :
    (callInline name ts).count '\n' = name.count '\n' + ts.flatten.count '\n' := by
  simp [callInline, count_joined]

theorem count_callBroken (name : Text) :
    (callBroken style depth name ts).count '\n' =
      name.count '\n' + ts.flatten.count '\n' + ts.length + 1 := by
  simp [callBroken, count_argumentLines, count_indent]
  omega

theorem count_groupText_of_not_fits {holdsCall : Bool} {content : Text}
    (breaks : groupFits holdsCall content = false) :
    (groupText style depth holdsCall content).count '\n' = content.count '\n' + 2 := by
  rw [groupText, if_neg (by rw [breaks]; exact Bool.false_ne_true)]
  simp [count_indent]

end Counts

/-! ## Calls on one line -/

variable {wide narrow style : Style} {depth : Nat}

theorem Expression.anyContainsCall_eq_any (es : List Expression) :
    anyContainsCall es = es.any containsCall := by
  induction es with
  | nil => rfl
  | cons e es ih => rw [anyContainsCall, ih, List.any_cons]

/-- No call with another one inside it stays on one line. -/
theorem callFree_of_fitsOneLine {arguments : List Expression} {rendered : List Text}
    (fits : fitsOneLine style arguments rendered = true) :
    Expression.anyContainsCall arguments = false := by
  rw [fitsOneLine, Bool.and_eq_true, Bool.and_eq_true] at fits
  have none : arguments.any (fun a => a.isCall || (a.isCompound && a.containsCall)) = false := by
    simpa using fits.1.2
  rw [List.any_eq_false] at none
  rw [Expression.anyContainsCall_eq_any, List.any_eq_false]
  intro a met
  have first := none a met
  -- what holds a call is a call or has parts
  cases a with
  | plain source parts =>
    cases parts with
    | nil => exact Bool.false_ne_true
    | cons => simpa [Expression.isCall, Expression.isCompound] using first
  | group source parts => simpa [Expression.isCall, Expression.isCompound] using first
  | call name source parts => simp [Expression.isCall] at first
  | operator op => exact Bool.false_ne_true

theorem Style.Widens.fitsOneLine (widens : wide.Widens narrow) {arguments : List Expression}
    {rendered : List Text} (fits : fitsOneLine narrow arguments rendered = true) :
    SheetFormula.fitsOneLine wide arguments rendered = true := by
  simp only [SheetFormula.fitsOneLine, Bool.and_eq_true, Bool.not_eq_true',
    Bool.and_eq_false_iff, decide_eq_false_iff_not, decide_eq_true_eq] at fits ⊢
  obtain ⟨⟨few, free⟩, short⟩ := fits
  have := widens.length
  have := widens.params
  exact ⟨⟨by omega, free⟩, by omega⟩

/-! ## Expressions without calls -/

mutual

/-- What holds no call is laid out the same, whatever the limits. -/
theorem layout_eq_of_callFree (widens : wide.Widens narrow) (depth : Nat) (e : Expression)
    (free : e.containsCall = false) : layout wide depth e = layout narrow depth e := by
  match e with
  | .plain source parts =>
    rw [Expression.containsCall] at free
    rw [layout_plain, layout_plain, layoutSequence_eq_of_callFree widens depth parts free,
      Style.leaf, Style.leaf, widens.spacing]
  | .group source parts =>
    rw [Expression.containsCall] at free
    rw [layout_group, layout_group, layoutSequence_eq_of_callFree widens (depth + 1) parts free,
      groupText, groupText, Style.indent, Style.indent, Style.indent, Style.indent, widens.indent]
  | .call name source arguments =>
    rw [Expression.containsCall] at free
    cases free
  | .operator op => rw [layout_operator, layout_operator]

theorem layoutSequence_eq_of_callFree (widens : wide.Widens narrow) (depth : Nat)
    (es : List Expression) (free : Expression.anyContainsCall es = false) :
    layoutSequence wide depth es = layoutSequence narrow depth es := by
  match es with
  | [] => rw [layoutSequence_nil, layoutSequence_nil]
  | e :: es =>
    rw [Expression.anyContainsCall, Bool.or_eq_false_iff] at free
    rw [layoutSequence_cons, layoutSequence_cons, layout_eq_of_callFree widens depth e free.1,
      layoutSequence_eq_of_callFree widens depth es free.2]

end

theorem layoutEach_eq_of_callFree (widens : wide.Widens narrow) {es : List Expression}
    (free : Expression.anyContainsCall es = false) :
    layoutEach wide depth es = layoutEach narrow depth es := by
  induction es with
  | nil => rw [layoutEach_eq_map, layoutEach_eq_map, List.map_nil, List.map_nil]
  | cons e es ih =>
    rw [Expression.anyContainsCall, Bool.or_eq_false_iff] at free
    rw [layoutEach_eq_map, layoutEach_eq_map] at ih ⊢
    rw [List.map_cons, List.map_cons, layout_eq_of_callFree widens depth e free.1, ih free.2]

/-! ## Expressions with calls -/

/-- A call with a proper name has no more lines if its arguments have no more. -/
theorem count_callText_le (widens : wide.Widens narrow) (name : Text)
    (arguments : List Expression)
    (fewer : (layoutEach wide (depth + 1) arguments).flatten.count '\n' ≤
      (layoutEach narrow (depth + 1) arguments).flatten.count '\n') :
    (callText wide depth name arguments (layoutEach wide (depth + 1) arguments)).count '\n' ≤
      (callText narrow depth name arguments
        (layoutEach narrow (depth + 1) arguments)).count '\n' := by
  have sizes : ∀ s : Style, (layoutEach s (depth + 1) arguments).length = arguments.length := by
    intro s
    rw [layoutEach_eq_map, List.length_map]
  unfold callText
  by_cases empty : arguments.isEmpty = true
  · rw [if_pos empty, if_pos empty]
  rw [if_neg empty, if_neg empty]
  by_cases inNarrow : fitsOneLine narrow arguments (layoutEach narrow (depth + 1) arguments) = true
  · -- on one line in the narrow style, so without calls, so on one line in the wide one
    have same : layoutEach wide (depth + 1) arguments = layoutEach narrow (depth + 1) arguments :=
      layoutEach_eq_of_callFree widens (callFree_of_fitsOneLine inNarrow)
    rw [same, if_pos inNarrow, if_pos (widens.fitsOneLine inNarrow)]
  · rw [if_neg inNarrow, count_callBroken]
    split
    · rw [count_callInline]
      omega
    · rw [count_callBroken, sizes, sizes]
      omega

mutual

theorem count_layout_le (widens : wide.Widens narrow) (depth : Nat) (e : Expression) :
    (layout wide depth e).count '\n' ≤ (layout narrow depth e).count '\n' := by
  match e with
  | .plain source parts =>
    rw [layout_plain, layout_plain]
    split
    · rw [Style.leaf, Style.leaf, widens.spacing]
    · exact count_layoutSequence_le widens depth parts
  | .group source parts =>
    cases holds : Expression.anyContainsCall parts with
    | false =>
      have free : (Expression.group source parts).containsCall = false := by
        rw [Expression.containsCall, holds]
      rw [layout_eq_of_callFree widens depth _ free]
    | true =>
      -- a group that holds a call is broken in every style
      have breaks : ∀ content, groupFits true content = false := by simp [groupFits]
      rw [layout_group, layout_group, holds, count_groupText_of_not_fits (breaks _),
        count_groupText_of_not_fits (breaks _)]
      have inside := count_layoutSequence_le widens (depth + 1) parts
      omega
  | .call name source arguments =>
    cases named : nameFault? name with
    | some fault => rw [layout_misnamed named, layout_misnamed named]
    | none =>
      rw [layout_call_of_named named, layout_call_of_named named]
      exact count_callText_le widens name arguments
        (count_layoutEach_le widens (depth + 1) arguments)
  | .operator op => rw [layout_operator, layout_operator]

theorem count_layoutSequence_le (widens : wide.Widens narrow) (depth : Nat)
    (es : List Expression) :
    (layoutSequence wide depth es).count '\n' ≤ (layoutSequence narrow depth es).count '\n' := by
  match es with
  | [] => rw [layoutSequence_nil, layoutSequence_nil]
  | e :: es =>
    rw [layoutSequence_cons, layoutSequence_cons, List.count_append, List.count_append,
      List.count_append, List.count_append]
    have first := count_layout_le widens depth e
    have behind := count_layoutSequence_le widens depth es
    omega

theorem count_layoutEach_le (widens : wide.Widens narrow) (depth : Nat) (es : List Expression) :
    (layoutEach wide depth es).flatten.count '\n' ≤
      (layoutEach narrow depth es).flatten.count '\n' := by
  match es with
  | [] => rw [layoutEach_eq_map, layoutEach_eq_map, List.map_nil, List.map_nil]
  | e :: es =>
    have first := count_layout_le widens depth e
    have behind := count_layoutEach_le widens depth es
    rw [layoutEach_eq_map, layoutEach_eq_map] at behind ⊢
    rw [List.map_cons, List.map_cons, List.flatten_cons, List.flatten_cons, List.count_append,
      List.count_append]
    omega

end

/-- With wider limits, any tree is laid out with at most as many line breaks. -/
theorem count_formatted_le (widens : wide.Widens narrow)
    (step : narrow.indentSize ≤ widestIndent) (tree : Expression) :
    ∃ before behind, formatted narrow tree = .ok before ∧ formatted wide tree = .ok behind ∧
      behind.count '\n' ≤ before.count '\n' :=
  ⟨_, _, formatted_eq step tree, formatted_eq (widens.indent ▸ step) tree,
    count_layout_le widens 0 tree⟩

/-- A call that both styles break, in it one that only the narrow style breaks, and a misnamed
one. -/
theorem count_formatted_le_nested : ∃ before behind,
    formatted { Style.standard with maxInlineParams := 1 }
        (.call "IF".toList [] [.leaf "A1".toList,
          .call "SUM".toList [] [.leaf "1".toList, .leaf "2".toList],
          .call [] "(3".toList []]) = .ok before ∧
      formatted .standard
        (.call "IF".toList [] [.leaf "A1".toList,
          .call "SUM".toList [] [.leaf "1".toList, .leaf "2".toList],
          .call [] "(3".toList []]) = .ok behind ∧
      behind.count '\n' ≤ before.count '\n' := by
  have widens : Style.standard.Widens { Style.standard with maxInlineParams := 1 } :=
    ⟨rfl, rfl, rfl, by decide, by decide⟩
  exact count_formatted_le widens (by decide) _

end SheetFormula
