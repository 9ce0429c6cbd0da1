import SheetFormula.Proofs.Format.Layout
import SheetFormula.Proofs.Format.Padding
import SheetFormula.Proofs.Reading.Essence

/-!
# Beautifying changes layout only

Every form of a rendered expression has the essence of the expression (`yields_layout`), and so a
beautified formula has the essence of the formula that was read (`essence_beautify`). The gaps,
line breaks and connectors between the parts are layout wherever they stand.
-/

namespace SheetFormula

open Text (Yields Tidy)

variable {style : Style} {depth : Nat}

@[simp] theorem Style.leaf_nil (style : Style) : style.leaf [] = [] := by
  rw [Style.leaf, Text.spaced_nil, ite_self]

/-- A leaf keeps its first character if that is no blank. -/
theorem Style.head?_leaf {t : Text} {c : Char} (first : t.head? = some c)
    (noBlank : Text.isBlank c = false) : (style.leaf t).head? = some c := by
  unfold Style.leaf
  split
  · exact Text.head?_spaced first noBlank
  · exact first

/-! ## Gaps and lines -/

theorem yields_blanks {t : Text} (blanks : ∀ c ∈ t, Text.isBlank c = true) : Yields t [] := by
  obtain ⟨tidy, nothing⟩ := Text.tidy_blanks blanks
  exact nothing ▸ tidy.yields

theorem isBlank_spaces {n : Nat} : ∀ c ∈ Text.spaces n, Text.isBlank c = true := by
  intro c met
  rw [List.eq_of_mem_replicate met]
  decide

theorem yields_gapBetween (e : Expression) (es : List Expression) :
    Yields (gapBetween e es) [] := by
  refine yields_blanks ?_
  unfold gapBetween
  split
  · simp
  · split <;> simp
    decide

/-- Characters with their own essence. -/
theorem yields_char {c : Char} (noQuote : c ≠ '"') (noConnector : Text.isConnector c = false) :
    Yields [c] (if Text.isBlank c then [] else Text.essential c) := by
  obtain ⟨tidy, same⟩ := Text.tidy_singleton noQuote noConnector
  exact same ▸ tidy.yields

/-- A line break with the indentation and the connector behind it. -/
theorem yields_lineStart (style : Style) (depth : Nat) (indicators isLast : Bool) :
    Yields ('\n' :: (style.indent (depth + 1) ++
      if indicators then argumentConnector (depth + 1) isLast else [])) [] := by
  refine Text.yields_layout fun c met => ?_
  rcases List.mem_append.1 met with met | met
  · exact .inl (isBlank_spaces c met)
  · split at met
    · rw [argumentConnector] at met
      rcases List.mem_append.1 met with met | met
      · exact .inl (isBlank_spaces c met)
      · cases isLast <;> simp at met <;> rcases met with rfl | rfl | rfl <;> decide
    · cases met

theorem yields_lineEnd (style : Style) (depth : Nat) : Yields ('\n' :: style.indent depth) [] :=
  Text.yields_layout fun c met => .inl (isBlank_spaces c met)

/-! ## Groups and calls -/

theorem yields_groupText {content r : Text} (holdsCall : Bool) (inner : Yields content r) :
    Yields (groupText style depth holdsCall content) (['('] ++ r ++ [')']) := by
  have opening : Yields ['('] ['('] := yields_char (by decide) (by decide)
  have closing : Yields [')'] [')'] := yields_char (by decide) (by decide)
  unfold groupText
  split
  · exact (opening.append inner).append closing
  · have broken := (opening.append (yields_lineEnd style (depth + 1))).append
      ((inner.append (yields_lineEnd style depth)).append closing)
    simpa using broken

/-- The texts with their essences, one by one. -/
inductive YieldsEach : List Text → List Text → Prop where
  | nil : YieldsEach [] []
  | cons {t r : Text} {ts rs : List Text} (first : Yields t r) (rest : YieldsEach ts rs) :
      YieldsEach (t :: ts) (r :: rs)

theorem YieldsEach.joined {ts rs : List Text} (each : YieldsEach ts rs) :
    Yields (Text.joined [';', ' '] ts) (Text.joined [','] rs) := by
  have gap : Yields [';', ' '] [','] := by
    have semicolon : Yields [';'] [','] := yields_char (by decide) (by decide)
    exact semicolon.append (yields_blanks (t := [' ']) (by simp; decide))
  induction each with
  | nil => exact Text.tidy_nil.yields.congr Text.essence_nil
  | cons first rest ih =>
    cases rest with
    | nil => exact first
    | cons => exact first.append (gap.append ih)

theorem YieldsEach.argumentLines {ts rs : List Text} (each : YieldsEach ts rs) :
    Yields ('\n' :: argumentLines style depth ts) (Text.joined [','] rs) := by
  induction each with
  | nil => exact Text.yields_layout fun c met => absurd met List.not_mem_nil
  | @cons t r ts rs first rest ih =>
    have line := (yields_lineStart style depth style.useNestingIndicators ts.isEmpty).append first
    cases rest with
    | nil => simpa [SheetFormula.argumentLines, Text.joined] using line.append ih
    | cons =>
      have semicolon : Yields [';'] [','] := yields_char (by decide) (by decide)
      simpa [SheetFormula.argumentLines, Text.joined] using line.append (semicolon.append ih)

theorem yields_name {name : Text} (isKnown : name ∈ FunctionName.known) : Yields name name := by
  have letters := (FunctionName.spells_of_mem_known isKnown).2
  obtain ⟨tidy, same⟩ := essence_name fun c met => (FunctionName.spelling (letters c met)).2.1
  rw [FunctionName.uppercase_of_mem_known isKnown] at same
  exact tidy.yields.congr same

theorem yields_callText {name : Text} {arguments : List Expression} {ts rs : List Text}
    (isKnown : name ∈ FunctionName.known) (sizes : arguments.isEmpty = ts.isEmpty)
    (each : YieldsEach ts rs) :
    Yields (callText style depth name arguments ts)
      (name ++ ['('] ++ Text.joined [','] rs ++ [')']) := by
  have opening : Yields ['('] ['('] := yields_char (by decide) (by decide)
  have closing : Yields [')'] [')'] := yields_char (by decide) (by decide)
  have front := (yields_name isKnown).append opening
  have inline : Yields (callInline name ts) (name ++ ['('] ++ Text.joined [','] rs ++ [')']) := by
    simpa [callInline] using front.append (each.joined.append closing)
  unfold callText
  split
  · next none =>
    rw [sizes, List.isEmpty_iff] at none
    rw [none] at inline
    exact inline
  · split
    · exact inline
    · have lines : Yields ('\n' :: argumentLines style depth ts) _ := each.argumentLines
      have indent : Yields (style.indent depth) [] := yields_blanks isBlank_spaces
      simpa [callBroken] using front.append (lines.append (indent.append closing))

theorem yields_lexeme (op : Operator) : Yields op.lexeme op.lexeme := by
  have tidy : op.lexeme.Tidy := Text.tidy_of_forall
    (fun c met => (Operator.lexeme_spelling met).1.1)
    fun c met => (Operator.lexeme_spelling met).2.1
  refine tidy.yields.congr ?_
  rw [Text.essence_eq]
  cases op <;> decide

/-! ## Expressions -/

mutual

/-- A rendered expression has the essence of the expression. -/
theorem yields_layout (style : Style) (depth : Nat) (e : Expression)
    (tidy : ∀ n ∈ e.nodes, n.IsTidy) : Yields (layout style depth e) e.essence := by
  match e with
  | .plain source [] =>
    rw [Expression.nodes] at tidy
    have sourceTidy : source.Tidy := tidy _ List.mem_cons_self
    rw [Expression.essence, layout_plain, if_pos List.isEmpty_nil, if_pos List.isEmpty_nil,
      Style.leaf]
    split
    · exact sourceTidy.spaced.1.yields.congr sourceTidy.spaced.2
    · exact sourceTidy.yields
  | .plain source (part :: parts) =>
    rw [Expression.nodes] at tidy
    rw [Expression.essence, layout_plain, if_neg (by simp), if_neg (by simp)]
    exact yields_layoutSequence style depth (part :: parts)
      fun n met => tidy n (List.mem_cons_of_mem _ met)
  | .group source parts =>
    rw [Expression.nodes] at tidy
    rw [Expression.essence, layout_group]
    exact yields_groupText _ (yields_layoutSequence style (depth + 1) parts
      fun n met => tidy n (List.mem_cons_of_mem _ met))
  | .call name source arguments =>
    rw [Expression.nodes] at tidy
    have isKnown : name ∈ FunctionName.known := tidy _ List.mem_cons_self
    rw [Expression.essence, layout_call isKnown]
    refine yields_callText isKnown ?_ (yields_layoutEach style (depth + 1) arguments
      fun n met => tidy n (List.mem_cons_of_mem _ met))
    rw [layoutEach_eq_map, List.isEmpty_map]
  | .operator op =>
    rw [Expression.essence, layout_operator]
    exact yields_lexeme op

theorem yields_layoutSequence (style : Style) (depth : Nat) (es : List Expression)
    (tidy : ∀ n ∈ Expression.nodesOfEach es, n.IsTidy) :
    Yields (layoutSequence style depth es) (Expression.essences es).flatten := by
  match es with
  | [] =>
    rw [layoutSequence_nil, Expression.essences]
    exact Text.tidy_nil.yields.congr Text.essence_nil
  | e :: es =>
    rw [Expression.nodesOfEach] at tidy
    obtain ⟨first, others⟩ := List.forall_mem_append.1 tidy
    rw [layoutSequence_cons, Expression.essences, List.flatten_cons]
    exact (yields_layout style depth e first).append
      ((yields_gapBetween e es).append (yields_layoutSequence style depth es others))

theorem yields_layoutEach (style : Style) (depth : Nat) (es : List Expression)
    (tidy : ∀ n ∈ Expression.nodesOfEach es, n.IsTidy) :
    YieldsEach (layoutEach style depth es) (Expression.essences es) := by
  match es with
  | [] =>
    rw [layoutEach_eq_map, Expression.essences]
    exact .nil
  | e :: es =>
    rw [Expression.nodesOfEach] at tidy
    obtain ⟨first, others⟩ := List.forall_mem_append.1 tidy
    rw [layoutEach_eq_map, List.map_cons, ← layoutEach_eq_map, Expression.essences]
    exact .cons (yields_layout style depth e first) (yields_layoutEach style depth es others)

end

end SheetFormula
