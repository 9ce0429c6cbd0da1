import SheetFormula.Proofs.Format.Joined
import SheetFormula.Proofs.Format.Parted

/-!
# Leaves that keep their texts

The leaves of some trees are laid out as they stand in the formula, and run into no operator that
comes to stand behind them. In the marks of such a row, each leaf is still a token by itself
(`TypesetRow.joined`).

## Main definitions

* `Expression.steady` — trees whose leaves keep their texts, apart from operators behind them
* `Expression.Steadfast` — parts in a row that are read again as they are
* `Mark.Framed` — marks with something visible at both ends
-/

namespace SheetFormula

open Mark Expression

/-! ## Leaves and operators -/

namespace Expression

/-- Whether the parts begin with a reference or a name. -/
def beginsReference : List Expression → Bool
  | plain t [] :: _ => t.head?.any Text.isReferencePart
  | call _ _ _ :: _ => true
  | _ => false

/-- Whether a leaf runs into no operator behind it: neither an exclamation mark into an equals sign,
nor any leaf into a colon that a reference follows. -/
def staysBefore (t : Text) : List Expression → Bool
  | operator .doubleEqual :: _ => t.getLast? != some '!'
  | operator .range :: es => !beginsReference es
  | _ => true

mutual

/-- Whether all leaves keep their texts and run into no operators. -/
def steady (style : Style) : Expression → Bool
  | plain source parts =>
    if parts.isEmpty then style.leaf source == source else steadyRow style parts
  | group _ parts => steadyRow style parts
  | call _ _ arguments => steadyEach style arguments
  | operator _ => true

/-- Whether all leaves of parts in a row do. -/
def steadyRow (style : Style) : List Expression → Bool
  | [] => true
  | e :: es => steady style e && (!e.isLeaf || staysBefore e.source es) && steadyRow style es

/-- Whether all leaves of each of several expressions do. -/
def steadyEach (style : Style) : List Expression → Bool
  | [] => true
  | e :: es => steady style e && steadyEach style es

end

variable {P : Text → Prop} {style : Style} {separator : Separator} {afterOperand : Bool}
  {name : Text} {e : Expression} {es : List Expression}

theorem steadyEach_eq_all : steadyEach style es = es.all (steady style) := by
  induction es with
  | nil => rw [steadyEach, List.all_nil]
  | cons e es ih => rw [steadyEach, ih, List.all_cons]

theorem partedEach_eq_all : partedEach style es = es.all (parted style) := by
  induction es with
  | nil => rw [partedEach, List.all_nil]
  | cons e es ih => rw [partedEach, ih, List.all_cons]

theorem steadyRow_row (stays : steady style e = true) : steadyRow style e.row = true := by
  rcases e.row_cases with single | ⟨source, whole⟩
  · rw [single, steadyRow, stays, steadyRow]
    cases e <;> simp [staysBefore]
  · rw [whole, steady] at stays
    split at stays
    · next none => rw [List.isEmpty_iff.1 none, steadyRow]
    · exact stays

/-- An argument is what its parts in a row are read as. -/
theorem IsArgument.argumentOf_row (argument : IsArgument P e) :
    argumentOf e.source e.row = e := by
  cases argument with
  | nothing => rfl
  | single part => rw [part.row_eq, argumentOf]
  | @several source parts two row =>
    rw [row_several two, argumentOf]
    · rfl
    · rintro rfl
      cases two
    · rintro part rfl
      simp at two

theorem IsArgument.isRow (argument : IsArgument P e) : Row P e.row := by
  cases argument with
  | nothing => exact .nil
  | single part =>
    rw [part.row_eq]
    exact .cons part (fun f none => by cases none) .nil
  | several two row => rwa [row_several two]

/-- All that is known of parts in a row behind a name, so that they are read again as they are. -/
structure Steadfast (P : Text → Prop) (style : Style) (separator : Separator) (afterOperand : Bool)
    (name : Text) (es : List Expression) : Prop where
  isRow : Row P es
  joins : JoinedRow afterOperand es
  separates : ∀ n ∈ nodesOfEach es, n.Separates separator
  parts : partedBehind style name es = true
  stays : steadyRow style es = true

/-- Behind a part, the rest of the row stands behind its name. -/
theorem Steadfast.behind (steadfast : Steadfast P style separator afterOperand name (e :: es)) :
    Steadfast P style separator (!e.isOperator) (e.nameBehind style) es := by
  obtain ⟨row, joined, separates, parts, stays⟩ := steadfast
  rw [nodesOfEach, List.forall_mem_append] at separates
  rw [partedBehind, Bool.and_eq_true] at parts
  rw [steadyRow, Bool.and_eq_true] at stays
  cases row with
  | cons first apart behind =>
    refine ⟨behind, ?_, separates.2, parts.2, stays.2⟩
    cases joined with
    | leaf _ rest => exact rest _
    | group _ rest | call _ rest | operator rest => exact rest

/-- Behind a leaf, an operand may stand in front of the row or not. -/
theorem Steadfast.behindLeaf {t : Text}
    (steadfast : Steadfast P style separator afterOperand name (plain t [] :: es)) :
    Steadfast P style separator afterOperand (Text.cutBeforeName (style.leaf t)).2 es := by
  obtain ⟨row, -, separates, parts, stays⟩ := steadfast.behind
  cases steadfast.joins with
  | leaf _ rest => exact ⟨row, rest afterOperand, separates, parts, stays⟩

theorem Steadfast.fresh (steadfast : Steadfast P style separator afterOperand name es) :
    Steadfast P style separator afterOperand [] es :=
  { steadfast with parts := partedBehind_nil steadfast.parts }

/-- Inside a group the row begins anew. -/
theorem Steadfast.inside {source : Text} {parts : List Expression}
    (steadfast : Steadfast P style separator afterOperand name (group source parts :: es)) :
    Steadfast P style separator false [] parts := by
  obtain ⟨row, joined, separates, parts, stays⟩ := steadfast
  rw [nodesOfEach, List.forall_mem_append, nodes, List.forall_mem_cons] at separates
  rw [partedBehind, Bool.and_eq_true, Bool.and_eq_true, parted] at parts
  rw [steadyRow, Bool.and_eq_true, Bool.and_eq_true, steady] at stays
  cases row with
  | cons first _ _ =>
    cases first with
    | group row =>
      cases joined with
      | group inside _ => exact ⟨row, inside, separates.1.2, parts.1.2, stays.1.1⟩

theorem Steadfast.argument {source callee : Text} {arguments : List Expression} {a : Expression}
    (steadfast : Steadfast P style separator afterOperand name (call callee source arguments :: es))
    (isArgument : a ∈ arguments) :
    IsArgument P a ∧ Steadfast P style separator false [] a.row := by
  obtain ⟨row, joined, separates, parts, stays⟩ := steadfast
  rw [nodesOfEach, List.forall_mem_append, nodes, List.forall_mem_cons] at separates
  rw [partedBehind, Bool.and_eq_true, Bool.and_eq_true, parted, partedEach_eq_all,
    List.all_eq_true] at parts
  rw [steadyRow, Bool.and_eq_true, Bool.and_eq_true, steady, steadyEach_eq_all,
    List.all_eq_true] at stays
  cases row with
  | cons first _ _ =>
    cases first with
    | call _ each =>
      cases joined with
      | call joins _ =>
        refine ⟨each a isArgument, (each a isArgument).isRow, joins a isArgument, ?_,
          partedBehind_row (parts.1.2 a isArgument), steadyRow_row (stays.1.1 a isArgument)⟩
        exact fun n isNode => separates.1.2 n
          (mem_nodesOfEach.2 ⟨a, isArgument, nodesOfEach_row_subset a isNode⟩)

/-! ## Spaces beside operators -/

theorem isSpacedOperator_lexeme (op : Operator) :
    Text.isSpacedOperator op.lexeme = op.takesSpaces := by
  cases op <;> decide

/-- A spaced operator stands in front of a space, or at the end of its row. -/
theorem gapBetween_operator {op : Operator} {f : Expression} (takes : op.takesSpaces = true)
    (tokens : ∀ t, P t → t.IsToken) (part : InRow P f) (es : List Expression) :
    gapBetween (operator op) (f :: es) = [' '] := by
  have spaced : Text.isSpacedOperator op.lexeme = true := by rw [isSpacedOperator_lexeme, takes]
  rw [gapBetween, if_pos]
  cases part with
  | leaf holds visible =>
    simp [needsSpace, edgeLexeme, spaced, op.lexeme_ne_nil, (tokens _ holds).trimmed, visible]
  | operator other =>
    simp [needsSpace, edgeLexeme, spaced, op.lexeme_ne_nil, other.lexeme_ne_nil]
  | group | call => simp [needsSpace, edgeLexeme, spaced]

/-- A leaf that is no operator stands in front of a space only if a spaced operator follows. -/
theorem gapBetween_leaf {t : Text} {f : Expression} (trimmed : Text.trim t = t) (visible : t ≠ [])
    (other : Text.isSpacedOperator t = false) (noLeaf : f.isLeaf = false)
    (es : List Expression) : gapBetween (plain t []) (f :: es) =
      if f.edgeLexeme.any Text.isSpacedOperator then [' '] else [] := by
  cases f with
  | plain source parts =>
    cases parts with
    | nil => cases noLeaf
    | cons => simp [gapBetween, needsSpace, edgeLexeme, trimmed, other]
  | operator op =>
    cases spaced : Text.isSpacedOperator op.lexeme <;>
      simp [gapBetween, needsSpace, edgeLexeme, trimmed, other, visible, op.lexeme_ne_nil, spaced]
  | group | call => simp [gapBetween, needsSpace, edgeLexeme, trimmed, other]

end Expression

/-- A token is no operator that is set between spaces. -/
theorem Text.Joined.isSpacedOperator_eq {t : Text} {next : Option Char}
    (joined : t.Joined afterOperand next) (noNumber : next.any startsNumber = false) :
    t.isSpacedOperator = false := by
  by_contra spaced
  rw [Bool.not_eq_false, isSpacedOperator, Option.any_eq_true] at spaced
  obtain ⟨op, isLexeme, takes⟩ := spaced
  have same : op.lexeme = t := by simpa using List.find?_some isLexeme
  have cut : SheetFormula.pieces t = op.lexeme.map .char := by
    rw [← same]
    exact pieces_of_noQuote (not_mem_lexeme op (by decide))
  obtain ⟨c, more, lexeme, starts, sign⟩ : ∃ c more, op.lexeme = c :: more ∧
      c ∈ ['<', '>', '=', '+', '-', '*', '/', '&'] ∧ (c = '+' ∨ c = '-' → more = []) := by
    cases op with
    | bangEqual | doubleEqual | power | range => cases takes
    | _ => exact ⟨_, _, rfl, by decide, by decide⟩
  rw [lexeme, List.map_cons] at cut
  have first : pieces t = [] ++ .char c :: more.map .char := cut
  cases joined first with
  | plain noOperator =>
    obtain ⟨other, single⟩ := Operator.exists_lexeme_eq starts
    exact noOperator other single
  | range isColon => rw [isColon] at starts; exact absurd starts (by decide)
  | exponent _ awaits => exact absurd awaits (by decide)
  | number isSign _ _ number =>
    rw [sign isSign] at number
    exact absurd (noNumber.symm.trans number) (by decide)

/-! ## What follows a part -/

namespace Mark

variable {c : Char} {t : Text} {ms trail rest : List Mark}

theorem Written.eq_nil (written : Written [] ms) : ms = [] := by
  have none := written.pieces
  rw [SheetFormula.pieces] at none
  exact List.map_eq_nil_iff.1 none

theorem Written.head? (written : Written (c :: t) ms) (noQuote : c ≠ '"') :
    (ms ++ rest).head?.bind char? = some c := by
  have pieces := written.pieces
  rw [SheetFormula.pieces, if_neg noQuote] at pieces
  obtain ⟨m, others, rfl, isChar, -⟩ := List.map_eq_cons_iff.1 pieces
  exact char?_char isChar

/-- Marks with something visible at both ends. -/
structure Framed (ms : List Mark) : Prop where
  first : ∃ m, ms.head? = some m ∧ m.isLayout = false
  last : ∃ m, ms.getLast? = some m ∧ m.isLayout = false

theorem Framed.trimmed_eq {lead : List Mark} (framed : Framed ms)
    (closed : ∀ m ∈ lead ++ ms ++ trail, m.isUnclosed = false)
    (leading : ∀ m ∈ lead, m.isLayout = true) (trailing : ∀ m ∈ trail, m.isLayout = true) :
    trimmed (lead ++ ms ++ trail) = ms := by
  obtain ⟨⟨first, isFirst, noLayout⟩, last, isLast, noLayoutLast⟩ := framed
  rw [Mark.trimmed_eq closed, trimEnds_append leading trailing]
  refine trimEnds_eq_self (fun m same => ?_) fun m same => ?_
  · exact Option.some.inj (isFirst.symm.trans same) ▸ noLayout
  · exact Option.some.inj (isLast.symm.trans same) ▸ noLayoutLast

/-- A token neither begins nor ends with layout. -/
theorem Written.framed (written : Written t ms) (trimmed : Text.trim t = t) (visible : t ≠ []) :
    Framed ms := by
  have whole := written.sourceText_eq
  have nonempty : ms ≠ [] := fun none => visible (by rw [← whole, none, sourceText_nil])
  have noLayout : ∀ m ∈ ms, (∀ d, m.piece = .char d → Text.isBlank d = false) →
      m.isLayout = false := by
    intro m met noBlank
    rw [written.layout m met]
    cases isPiece : m.piece with
    | literal => rfl
    | char d => exact noBlank d isPiece
  constructor
  · obtain ⟨m, others, rfl⟩ := List.exists_cons_of_ne_nil nonempty
    refine ⟨m, rfl, noLayout m List.mem_cons_self fun d isChar => ?_⟩
    rw [sourceText_cons, isChar] at whole
    exact head?_trimEnds (by rw [← Text.trim, trimmed, ← whole]; rfl)
  · obtain ⟨others, m, rfl⟩ := (List.eq_nil_or_concat ms).resolve_left nonempty
    rw [List.concat_eq_append] at *
    refine ⟨m, List.getLast?_concat, noLayout m (by simp) fun d isChar => ?_⟩
    rw [sourceText_append, sourceText_cons, isChar] at whole
    have last : (Text.trim t).getLast? = some d := by
      rw [trimmed, ← whole]
      exact List.getLast?_concat
    exact getLast?_trimEnds last

theorem idle_next (genuine : AllGenuine trail) (layout : ∀ m ∈ trail, m.isLayout = true) :
    ∀ d, trail.head?.bind char? = some d → Text.Idle d := by
  intro d isNext
  cases trail with
  | nil => cases isNext
  | cons m trail =>
    obtain ⟨c, isChar, kind⟩ := genuine.head.of_layout (layout m List.mem_cons_self)
    have same : m.char? = some d := isNext
    rw [char?_char isChar] at same
    exact Option.some.inj same ▸ kind.elim Text.idle_of_isBlank Text.idle_of_isConnector

/-- The first character among the marks of a text is the first of the text. -/
theorem Written.head?_eq (written : Written t ms) (visible : t ≠ []) {d : Char}
    (isNext : (ms ++ rest).head?.bind char? = some d) : t.head? = some d := by
  obtain ⟨c, t, rfl⟩ := List.exists_cons_of_ne_nil visible
  have pieces := written.pieces
  by_cases isQuote : c = '"'
  · rw [SheetFormula.pieces, if_pos isQuote] at pieces
    obtain ⟨m, others, rfl, isLiteral, -⟩ := List.map_eq_cons_iff.1 pieces
    have none : m.char? = some d := isNext
    rw [char?_literal isLiteral] at none
    cases none
  · rw [written.head? isQuote] at isNext
    exact isNext

end Mark

namespace Expression

variable {P : Text → Prop} {style : Style} {separator : Separator} {afterOperand : Bool}
  {t pending : Text} {ms gap ns trail inside : List Mark} {e : Expression} {es : List Expression}

/-- A character of a name joins every token. -/
theorem joins_name {c : Char} {next : Option Char} (isName : Text.isNameChar c = true) :
    Joins afterOperand pending c next := by
  refine .plain (fun op single => ?_) ?_
  · have other : op.lexeme.all (fun d => !Text.isNameChar d) = true := by
      cases op <;> decide +kernel
    rw [single, List.all_cons, isName] at other
    cases other
  · rintro rfl
    exact absurd isName (by decide +kernel)

/-- The marks of a row begin with no reference if the row begins with none. -/
theorem TypesetRow.noReference (typeset : TypesetRow P style es ns)
    (genuine : AllGenuine (ns ++ trail)) (trailing : ∀ m ∈ trail, m.isLayout = true)
    (stays : steadyRow style es = true) (none : beginsReference es = false) :
    ∀ d, (ns ++ trail).head?.bind char? = some d → Text.isReferencePart d = false := by
  intro d isNext
  cases typeset with
  | nil => exact (idle_next genuine trailing d isNext).noReference
  | cons first =>
    rw [List.append_assoc] at isNext
    cases first with
    | @leaf t _ holds visible written =>
      rw [steadyRow, Bool.and_eq_true, Bool.and_eq_true, steady, if_pos List.isEmpty_nil,
        beq_iff_eq] at stays
      rw [stays.1.1] at written
      rw [beginsReference, written.head?_eq visible isNext] at none
      exact none
    | group isOpening =>
      have same := (char?_char isOpening).symm.trans isNext
      obtain rfl := Option.some.inj same
      decide
    | call => cases none
    | operator written =>
      have first := written.head?_eq (Operator.lexeme_ne_nil _) isNext
      exact (Operator.noReference_of_mem (List.mem_of_head? first)).1

theorem noNumber_behindLeaf? (row : Row P es) :
    (behindLeaf? es).any Text.startsNumber = false := by
  unfold behindLeaf?
  split
  · next op _ =>
    split
    · rfl
    · cases first : op.lexeme.head? with
      | none => rfl
      | some d => exact (Operator.noReference_of_mem (List.mem_of_head? first)).2
  · cases row with
    | cons part =>
      cases part with
      | call known => exact (FunctionName.begins_of_mem_known known).2
  · rfl

/-- A leaf joins where it is laid out. -/
theorem TypesetRow.joined (behind : TypesetRow P style es ns)
    (between : Written (gapBetween (plain t []) es) gap)
    (genuine : AllGenuine (gap ++ (ns ++ trail)))
    (trailing : ∀ m ∈ trail, m.isLayout = true) (row : Row P es) (trimmed : Text.trim t = t)
    (visible : t ≠ []) (apart : ∀ f ∈ es.head?, f.isLeaf = false)
    (joined : t.Joined afterOperand (behindLeaf? es)) :
    t.Joined afterOperand ((gap ++ (ns ++ trail)).head?.bind char?) := by
  have noNumber := noNumber_behindLeaf? row
  have other := joined.isSpacedOperator_eq noNumber
  have alone : ∀ {d : Option Char}, behindLeaf? es = none → d ≠ some '=' →
      t.Joined afterOperand d := by
    intro d none noEqual
    rw [none] at joined
    exact joined.before rfl (fun reference => by cases reference) fun _ => noEqual
  cases behind with
  | nil =>
    obtain rfl := between.eq_nil
    refine alone rfl fun isEqual => ?_
    exact (idle_next (allGenuine_append.1 genuine).2 trailing _ isEqual).noLexeme .equal (by decide)
  | cons first =>
    rw [gapBetween_leaf trimmed visible other (apart _ rfl)] at between
    cases first with
    | leaf => cases apart _ rfl
    | group isOpening =>
      obtain rfl := between.eq_nil
      have next := char?_char isOpening
      refine (congrArg _ next).mpr (alone rfl (by decide))
    | @call name _ _ _ _ _ _ known _ isName =>
      obtain rfl := between.eq_nil
      obtain ⟨noEmpty, letters⟩ := FunctionName.spells_of_mem_known known
      obtain ⟨c, rest, rfl⟩ := List.exists_cons_of_ne_nil noEmpty
      have noQuote := (FunctionName.spelling (letters c List.mem_cons_self)).2.2.2.1
      rw [List.nil_append, List.append_assoc, List.append_assoc, isName.head? noQuote]
      exact joined
    | @operator op _ written =>
      rw [edgeLexeme, Option.any_some, isSpacedOperator_lexeme] at between
      rw [behindLeaf?] at joined
      obtain ⟨c, rest, lexeme⟩ := List.exists_cons_of_ne_nil op.lexeme_ne_nil
      have noQuote : c ≠ '"' := by
        rintro rfl
        exact not_mem_lexeme op (by decide) (lexeme ▸ List.mem_cons_self)
      split at between
      · next takes =>
        rw [if_pos takes] at joined
        rw [between.head? (by decide)]
        exact joined.before rfl (fun reference => by cases reference) fun _ => by decide
      · next tight =>
        obtain rfl := between.eq_nil
        rw [if_neg tight] at joined
        rw [lexeme] at written joined
        rw [List.nil_append, List.append_assoc, written.head? noQuote]
        exact joined

end Expression

end SheetFormula
