import SheetFormula.Proofs.Format.Layout
import SheetFormula.Proofs.Marks.Spans
import SheetFormula.Proofs.Reading.Bodies
import SheetFormula.Proofs.Reading.Erased

/-!
# Separators

Whether the arguments of a formula stand between commas or between semicolons makes no difference
to its tree, its line and its layout (`tree_withSemicolons`). An expression is laid out by its
leaves, names and operators only (`layout_erased`).
-/

namespace SheetFormula

/-! ## Pieces of rewritten texts -/

namespace Piece

variable {s : Scope} {ps : List Piece}

theorem whole_semicolons (whole : ∀ p ∈ ps, Whole p) : ∀ p ∈ semicolons s ps, Whole p := by
  induction ps generalizing s with
  | nil => exact whole
  | cons p ps ih =>
    obtain ⟨first, behind⟩ := List.forall_mem_cons.1 whole
    refine List.forall_mem_cons.2 ⟨?_, ih behind⟩
    rcases s.rewrite_cases p with same | ⟨-, semicolon⟩
    · rwa [same]
    · rw [semicolon]
      exact whole_char (by decide)

theorem isSome_char?_rewrite (s : Scope) (p : Piece) :
    (s.rewrite p).char?.isSome = p.char?.isSome := by
  rcases s.rewrite_cases p with same | ⟨comma, semicolon⟩
  · rw [same]
  · rw [semicolon, comma]
    rfl

theorem apart_semicolons (apart : ps.IsChain Apart) : (semicolons s ps).IsChain Apart := by
  induction ps generalizing s with
  | nil => exact .nil
  | cons p ps ih =>
    obtain ⟨first, behind⟩ := List.isChain_cons.1 apart
    refine List.isChain_cons.2 ⟨fun q isNext => ?_, ih behind⟩
    cases ps with
    | nil => cases isNext
    | cons next ps =>
      cases isNext
      rw [Apart, isSome_char?_rewrite, isSome_char?_rewrite]
      exact first next rfl

end Piece

open Piece

theorem Text.pieces_withSemicolons {t : Text} (closed : t.LiteralsClosed) :
    pieces t.withSemicolons = semicolons .start (pieces t) := by
  obtain ⟨whole, apart⟩ := whole_pieces closed
  exact pieces_textOf (whole_semicolons whole) (apart_semicolons apart)

theorem Mark.place_semicolons (s : Scope) (ps : List Piece) (position : Nat) (indented : Bool) :
    place position indented (Piece.semicolons s ps) =
      semicolons s (place position indented ps) := by
  induction ps generalizing s position indented with
  | nil => rfl
  | cons p ps ih =>
    rw [Piece.semicolons, place, place, semicolons, ih]
    rcases s.rewrite_cases p with same | ⟨rfl, semicolon⟩
    · rw [same]
    · -- neither separator is layout, and both end an indentation
      rw [semicolon]
      cases indented <;> rfl

theorem marks_withSemicolons {t : Text} (closed : t.LiteralsClosed) :
    marks t.withSemicolons = Mark.semicolons .start (marks t) := by
  rw [marks, Text.pieces_withSemicolons closed, Mark.place_semicolons]
  rfl

/-! ## Layout of erased expressions -/

theorem gapBetween_erased (e : Expression) (es : List Expression) :
    gapBetween e.erased (Expression.erasedEach es) = gapBetween e es := by
  cases es with
  | nil => rw [Expression.erasedEach]; rfl
  | cons next es =>
    rw [Expression.erasedEach, gapBetween, gapBetween, needsSpace, needsSpace,
      e.outside_erased.2.2, next.outside_erased.2.2]

theorem callText_erasedEach (style : Style) (depth : Nat) (name : Text)
    (arguments : List Expression) (rendered : List Text) :
    callText style depth name (Expression.erasedEach arguments) rendered =
      callText style depth name arguments rendered := by
  have size : (Expression.erasedEach arguments).length = arguments.length := by
    rw [Expression.erasedEach_eq_map, List.length_map]
  have kinds : (Expression.erasedEach arguments).any
      (fun a => a.isCall || (a.isCompound && a.containsCall)) =
        arguments.any fun a => a.isCall || (a.isCompound && a.containsCall) := by
    rw [Expression.erasedEach_eq_map, List.any_map]
    congr 1
    funext a
    obtain ⟨isCall, isCompound, -⟩ := a.outside_erased
    simp only [Function.comp, isCall, isCompound, Expression.containsCall_erased]
  have fits : fitsOneLine style (Expression.erasedEach arguments) rendered =
      fitsOneLine style arguments rendered := by
    rw [fitsOneLine, fitsOneLine, size, kinds]
  rw [callText, callText, Expression.isEmpty_erasedEach, fits]

mutual

/-- The texts of calls with known names, groups and parts in a row are not laid out. -/
theorem layout_erased (style : Style) (depth : Nat) (e : Expression)
    (sound : ∀ n ∈ e.nodes, n.Sound fun _ => True) :
    layout style depth e.erased = layout style depth e := by
  match e with
  | .plain source [] => rw [Expression.erased_leaf]
  | .plain source (part :: parts) =>
    rw [Expression.nodes] at sound
    rw [Expression.erased_node, layout_plain, layout_plain, if_neg (by simp), if_neg (by simp),
      ← Expression.erasedEach]
    exact layoutSequence_erasedEach style depth (part :: parts)
      fun n met => sound n (List.mem_cons_of_mem _ met)
  | .group source parts =>
    rw [Expression.nodes] at sound
    rw [Expression.erased, layout_group, layout_group, Expression.anyContainsCall_erasedEach,
      layoutSequence_erasedEach style (depth + 1) parts
        fun n met => sound n (List.mem_cons_of_mem _ met)]
  | .call name source arguments =>
    rw [Expression.nodes] at sound
    have isKnown : name ∈ FunctionName.known := sound _ List.mem_cons_self
    rw [Expression.erased, layout_call isKnown, layout_call isKnown, callText_erasedEach,
      layoutEach_erasedEach style (depth + 1) arguments
        fun n met => sound n (List.mem_cons_of_mem _ met)]
  | .operator op => rw [Expression.erased]

theorem layoutSequence_erasedEach (style : Style) (depth : Nat) (es : List Expression)
    (sound : ∀ n ∈ Expression.nodesOfEach es, n.Sound fun _ => True) :
    layoutSequence style depth (Expression.erasedEach es) = layoutSequence style depth es := by
  match es with
  | [] => rw [Expression.erasedEach]
  | e :: es =>
    rw [Expression.nodesOfEach] at sound
    obtain ⟨first, others⟩ := List.forall_mem_append.1 sound
    rw [Expression.erasedEach, layoutSequence_cons, layoutSequence_cons, gapBetween_erased,
      layout_erased style depth e first, layoutSequence_erasedEach style depth es others]

theorem layoutEach_erasedEach (style : Style) (depth : Nat) (es : List Expression)
    (sound : ∀ n ∈ Expression.nodesOfEach es, n.Sound fun _ => True) :
    layoutEach style depth (Expression.erasedEach es) = layoutEach style depth es := by
  match es with
  | [] => rw [Expression.erasedEach]
  | e :: es =>
    rw [Expression.nodesOfEach] at sound
    obtain ⟨first, others⟩ := List.forall_mem_append.1 sound
    have rest := layoutEach_erasedEach style depth es others
    rw [layoutEach_eq_map, layoutEach_eq_map] at rest
    rw [Expression.erasedEach, layoutEach_eq_map, layoutEach_eq_map, List.map_cons, List.map_cons,
      layout_erased style depth e first, rest]

end

/-! ## Formulas -/

/-- Blanks and the equals sign around a body are not rewritten. -/
theorem Text.withSemicolons_frame {lead body trail : Text} (closed : body.LiteralsClosed)
    (leading : ∀ c ∈ lead, c = '=' ∨ isBlank c = true)
    (trailing : ∀ c ∈ trail, isBlank c = true) :
    (lead ++ body ++ trail).withSemicolons = lead ++ body.withSemicolons ++ trail := by
  obtain ⟨leadOther, trailOther⟩ := not_mem_frame leading trailing
  have noName : (cutBeforeName lead).2 = [] := by
    rcases List.eq_nil_or_concat lead with rfl | ⟨front, c, rfl⟩
    · rfl
    · rw [List.concat_eq_append] at leading ⊢
      refine name_concat_other ?_ front
      rcases leading c (by simp) with rfl | blank
      · decide +kernel
      · exact isNameChar_of_isBlank blank
  have chars : ∀ t : Text, ',' ∉ t → ∀ p ∈ t.map Piece.char, p ≠ .char ',' := by
    intro t noComma p met isComma
    obtain ⟨c, within, rfl⟩ := List.mem_map.1 met
    exact noComma (Piece.char.inj isComma ▸ within)
  have opened : (Scope.start.behindEach (lead.map Piece.char)).opened = Scope.start.opened := by
    refine Scope.opened_behindEach_other fun p met => ?_
    obtain ⟨c, within, rfl⟩ := List.mem_map.1 met
    constructor <;> (rintro ⟨⟩; exact leadOther _ (by decide) within)
  have front : (cutBeforeName (Scope.start.behindEach (lead.map Piece.char)).front).2 =
      (cutBeforeName Scope.start.front).2 := by
    rw [Scope.front_behindEach, textOf_chars]
    exact noName
  rw [withSemicolons, pieces_frame closed (leadOther _ (by decide)) (trailOther _ (by decide)),
    Piece.semicolons_append, Piece.semicolons_append,
    Piece.semicolons_other (chars lead (leadOther _ (by decide))),
    Piece.semicolons_other (chars trail (trailOther _ (by decide))),
    Piece.semicolons_congr opened front, textOf_append, textOf_append, textOf_chars, textOf_chars]
  rfl

/-- The ends of a rewritten text are blank where those of the text are, and it begins with no new
equals sign. -/
theorem Text.trim_withSemicolons {body : Text} (trimmed : trim body = body) :
    trim body.withSemicolons = body.withSemicolons ∧
      (body.withSemicolons.head? = some '=' → body.head? = some '=') := by
  have replaces : List.Forall₂ (fun c d => d = c ∨ c = ',' ∧ d = ';') body body.withSemicolons := by
    have texts := Mark.replaces_sourceText (Mark.replaces_semicolons .start (marks body))
    rwa [Mark.sourceText_marks, Mark.sourceText, Mark.map_piece_semicolons, Mark.map_piece_marks]
      at texts
  have first : ∀ {t u : Text}, List.Forall₂ (fun c d => d = c ∨ c = ',' ∧ d = ';') t u →
      ∀ d, u.head? = some d → ∃ c, t.head? = some c ∧ (d = c ∨ c = ',' ∧ d = ';') := by
    intro t u replaces d isFirst
    cases replaces with
    | nil => cases isFirst
    | cons rel _ =>
      cases isFirst
      exact ⟨_, rfl, rel⟩
  have noBlank : ∀ c d, d = c ∨ c = ',' ∧ d = ';' → isBlank c = false → isBlank d = false := by
    rintro c d (rfl | ⟨-, rfl⟩) blank
    · exact blank
    · decide
  refine ⟨trimEnds_eq_self (fun d isFirst => ?_) fun d isLast => ?_, fun isFirst => ?_⟩
  · obtain ⟨c, isFirst, rel⟩ := first replaces d isFirst
    rw [← trimmed] at isFirst
    exact noBlank c d rel (head?_trimEnds isFirst)
  · rw [List.getLast?_eq_head?_reverse] at isLast
    obtain ⟨c, isLast, rel⟩ := first (List.forall₂_reverse_iff.2 replaces) d isLast
    rw [← List.getLast?_eq_head?_reverse, ← trimmed] at isLast
    exact noBlank c d rel (getLast?_trimEnds isLast)
  · obtain ⟨c, isFirst, rel⟩ := first replaces '=' isFirst
    rw [isFirst, rel.resolve_right fun semicolon => absurd semicolon.2 (by decide)]

theorem Formula.ofText_withSemicolons {t : Text} (closed : (ofText t).body.LiteralsClosed) :
    ofText t.withSemicolons = ⟨(ofText t).hasEquals, (ofText t).body.withSemicolons⟩ := by
  obtain ⟨lead, trail, whole, leading, trailing, exchange⟩ := exists_frame t
  obtain ⟨trimmed, head⟩ := Text.trim_withSemicolons (trim_body_ofText t)
  conv => lhs; rw [whole]
  rw [Text.withSemicolons_frame closed leading trailing, exchange _ trimmed head]

/-- The tree of a body with semicolons for its separating commas, but for texts of nodes with
parts. -/
theorem Formula.erased_tree_withSemicolons (f : Formula) (closed : f.body.LiteralsClosed)
    (enclosed : Mark.Enclosed 0 (marks f.body)) (balanced : Mark.openAfter 0 (marks f.body) = 0)
    (noSemicolon : .char ';' ∉ pieces f.body) :
    (Formula.mk f.hasEquals f.body.withSemicolons).tree.erased = f.tree.erased := by
  by_cases changed : .char ';' ∈ pieces f.body.withSemicolons
  · have readable : Mark.Readable (marks f.body) := ⟨Mark.allGenuine_marks f.body, enclosed⟩
    have others : ∀ m ∈ marks f.body, m.char? ≠ some ';' := by
      intro m met isSemicolon
      rw [← Mark.map_piece_marks, ← Mark.piece_of_char? isSemicolon] at noSemicolon
      exact noSemicolon (List.mem_map_of_mem met)
    have joins : Scope.start.Joins (marks f.body) := fun isInside => by cases isInside
    have rewritable : Mark.Rewritable .start [] (marks f.body) :=
      ⟨Mark.complete_place closed 0 false, balanced, others, joins, rfl⟩
    have parts : Expression.erasedEach
        (Mark.read .semicolon false [] (Mark.semicolons .start (marks f.body))).value =
          Expression.erasedEach (Mark.read .comma false [] (marks f.body)).value :=
      Mark.erased_read_semicolons false [] readable rewritable
    have rewritten : Mark.Enclosed 0 (Mark.semicolons .start (marks f.body)) :=
      (Mark.enclosed_of_replaces (Mark.replaces_semicolons .start (marks f.body))).1.1 enclosed
    rw [tree_parts, tree_parts, separator, separator, Separator.ofText_eq, Separator.ofText_eq,
      if_pos changed, if_neg noSemicolon, marks_withSemicolons closed, enclosed.cutAtClose_eq,
      rewritten.cutAtClose_eq, Mark.strayLeaf, List.append_nil, List.append_nil]
    refine Expression.erased_plain parts fun empty => ?_
    rw [empty, Expression.erasedEach, eq_comm, Expression.erasedEach_eq_nil] at parts
    have same := Mark.semicolons_of_value_eq_nil readable rewritable parts
    have texts := congrArg Mark.sourceText same
    rwa [Mark.sourceText, Mark.map_piece_semicolons, Mark.map_piece_marks, Mark.sourceText_marks]
      at texts
  · -- without a semicolon nothing has been rewritten
    rw [Text.pieces_withSemicolons closed] at changed
    have same : f.body.withSemicolons = f.body := by
      rw [Text.withSemicolons, Piece.semicolons_eq_self changed, textOf_pieces]
    rw [same]

/-- An accepted formula without semicolons outside literals has the same tree, but for texts of
nodes with parts, if semicolons stand in place of the commas that separate arguments. It is shown on
one line and laid out alike. -/
theorem tree_withSemicolons (style : Style) (t : Text) {tree : Expression}
    (accepted : (Formula.ofText t).tree? = .ok tree) (noSemicolon : .char ';' ∉ pieces t) :
    (Formula.ofText t.withSemicolons).tree.erased = (Formula.ofText t).tree.erased ∧
      (Formula.ofText t.withSemicolons).tree.display = (Formula.ofText t).tree.display ∧
      (style.indentSize ≤ widestIndent → beautify style t.withSemicolons = beautify style t) := by
  obtain ⟨-, closed, enclosed, balanced⟩ := (Formula.ofText t).paired_of_tree? accepted
  have rewritten := Formula.ofText_withSemicolons closed
  have erased : (Formula.ofText t.withSemicolons).tree.erased = (Formula.ofText t).tree.erased := by
    rw [rewritten]
    exact Formula.erased_tree_withSemicolons _ closed enclosed balanced fun met =>
      noSemicolon (Formula.pieces_body_subset closed met)
  refine ⟨erased, ?_, fun narrow => ?_⟩
  · rw [← Expression.display_erased, erased, Expression.display_erased]
  · have layouts : layout style 0 (Formula.ofText t.withSemicolons).tree =
        layout style 0 (Formula.ofText t).tree := by
      rw [← layout_erased style 0 _ (Formula.sound_tree _), erased,
        layout_erased style 0 _ (Formula.sound_tree _)]
    rw [beautify_eq narrow, beautify_eq narrow, layouts, Formula.withEquals, Formula.withEquals,
      rewritten]

/-- Commas in a group, in a literal and in nested calls. -/
theorem tree_withSemicolons_if :
    Text.withSemicolons " = if((a1,b2)>1, \"x,y\", sum(1,pi( ),t(2,(3,4))))".toList =
        " = if((a1,b2)>1; \"x,y\"; sum(1;pi( );t(2;(3,4))))".toList ∧
      beautify .standard " = if((a1,b2)>1; \"x,y\"; sum(1;pi( );t(2;(3,4))))".toList =
        beautify .standard " = if((a1,b2)>1, \"x,y\", sum(1,pi( ),t(2,(3,4))))".toList := by
  have rewritten :
      Text.withSemicolons " = if((a1,b2)>1, \"x,y\", sum(1,pi( ),t(2,(3,4))))".toList =
      " = if((a1,b2)>1; \"x,y\"; sum(1;pi( );t(2;(3,4))))".toList := by
    decide +kernel
  refine ⟨rewritten, ?_⟩
  have isOk : (Formula.ofText
      " = if((a1,b2)>1, \"x,y\", sum(1,pi( ),t(2,(3,4))))".toList).tree?.isOk = true := by
    decide +kernel
  cases accepted : (Formula.ofText
      " = if((a1,b2)>1, \"x,y\", sum(1,pi( ),t(2,(3,4))))".toList).tree? with
  | error fault => rw [accepted] at isOk; cases isOk
  | ok tree =>
    rw [← rewritten]
    exact (tree_withSemicolons .standard _ accepted (by decide +kernel)).2.2 (by decide)

end SheetFormula
