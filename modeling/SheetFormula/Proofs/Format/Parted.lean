import SheetFormula.Proofs.Format.Completed
import SheetFormula.Proofs.Format.EqualsSign
import SheetFormula.Proofs.Format.Typeset
import SheetFormula.Proofs.Marks.Spans

/-!
# Calls and groups of a laid out formula

A beautified formula has the calls and groups of the formula, each call with as many arguments, if
no leaf runs into the parenthesis or the name behind it (`openings_beautify`). The blanks between a
leaf and a parenthesis are not written again, so where it does, another name stands in front of the
parenthesis (`beautify_calls_change`).

## Main definitions

* `Expression.parted` — trees in which no leaf runs into what follows it
-/

namespace SheetFormula

open Mark Expression

/-! ## Leaves -/

namespace Text

variable {t : Text} {p : Piece}

theorem mem_pieces_leaf (noBlank : p.satisfies isBlank = false) (style : Style) :
    p ∈ SheetFormula.pieces (style.leaf t) ↔ p ∈ SheetFormula.pieces t := by
  have solids : ∀ ps, p ∈ Piece.solid ps ↔ p ∈ ps := fun ps => by simp [Piece.solid, noBlank]
  unfold Style.leaf
  split
  · rw [pieces_spaced, ← solids, solid_spacedPieces (quoted_pieces t), solids]
  · rfl

theorem mem_of_mem_pieces {c : Char} (met : .char c ∈ SheetFormula.pieces t) : c ∈ t := by
  rw [← textOf_pieces t]
  exact List.mem_flatMap.2 ⟨_, met, List.mem_singleton_self c⟩

/-- A text without blanks around it shows something. -/
theorem exists_visible (trimmed : trim t = t) (noEmpty : t ≠ []) :
    ∃ p ∈ SheetFormula.pieces t, p.satisfies isBlank = false := by
  obtain ⟨c, rest, rfl⟩ := List.exists_cons_of_ne_nil noEmpty
  have noBlank : isBlank c = false := head?_trimEnds (by rw [← trim, trimmed]; rfl)
  rw [SheetFormula.pieces]
  split
  · exact ⟨_, List.mem_cons_self, rfl⟩
  · exact ⟨_, List.mem_cons_self, noBlank⟩

/-- Between spaces too, a token has no parentheses. -/
theorem IsToken.noParenthesis_leaf (token : t.IsToken) (style : Style) :
    .char '(' ∉ SheetFormula.pieces (style.leaf t) ∧
      .char ')' ∉ SheetFormula.pieces (style.leaf t) := by
  rw [mem_pieces_leaf (by decide), mem_pieces_leaf (by decide)]
  exact ⟨fun met => absurd (token.noParenthesis _ met) (by decide),
    fun met => absurd (token.noParenthesis _ met) (by decide)⟩

end Text

/-! ## Marks in parentheses -/

namespace Mark

variable {separator : Separator} {depth : Nat} {t : Text} {ms : List Mark}

theorem Written.sourceText_eq (written : Written t ms) : sourceText ms = t := by
  rw [sourceText, written.pieces, textOf_pieces]

theorem Written.char?_ne {c : Char} (written : Written t ms)
    (other : .char c ∉ SheetFormula.pieces t) : ∀ m ∈ ms, m.char? ≠ some c := by
  intro m met isChar
  refine other ?_
  rw [← written.pieces, ← piece_of_char? isChar]
  exact List.mem_map_of_mem met

theorem Written.visible (written : Written t ms)
    (shows : ∃ p ∈ SheetFormula.pieces t, p.satisfies Text.isBlank = false) :
    ∃ m ∈ ms, m.isLayout = false := by
  obtain ⟨p, met, noBlank⟩ := shows
  rw [← written.pieces] at met
  obtain ⟨m, within, rfl⟩ := List.mem_map.1 met
  exact ⟨m, within, (written.layout m within).trans noBlank⟩

/-- The marks close all parentheses that they open, and no others. -/
structure Balanced (ms : List Mark) : Prop where
  enclosed : Enclosed 0 ms
  openAfter_eq : openAfter 0 ms = 0

theorem Balanced.append {ns : List Mark} (first : Balanced ms) (second : Balanced ns) :
    Balanced (ms ++ ns) :=
  ⟨enclosed_append.2 ⟨first.enclosed, by rw [first.openAfter_eq]; exact second.enclosed⟩,
    by rw [openAfter_append, first.openAfter_eq, second.openAfter_eq]⟩

theorem balanced_other (others : ∀ m ∈ ms, m.char? ≠ some '(' ∧ m.char? ≠ some ')') :
    Balanced ms :=
  ⟨(enclosed_other others).1, (enclosed_other others).2⟩

theorem balanced_layout (genuine : AllGenuine ms) (layout : ∀ m ∈ ms, m.isLayout = true) :
    Balanced ms :=
  ⟨(enclosed_layout genuine layout).1, (enclosed_layout genuine layout).2⟩

/-- Balanced marks are so with layout at both ends. -/
theorem Balanced.padded {lead trail : List Mark} (inside : AllGenuine ms → Balanced ms)
    (genuine : AllGenuine (lead ++ ms ++ trail)) (leading : ∀ m ∈ lead, m.isLayout = true)
    (trailing : ∀ m ∈ trail, m.isLayout = true) : Balanced (lead ++ ms ++ trail) :=
  have parts := allGenuine_append.1 genuine
  have front := allGenuine_append.1 parts.1
  ((balanced_layout front.1 leading).append (inside front.2)).append
    (balanced_layout parts.2 trailing)

theorem Balanced.parentheses {opening closing : Mark} (inside : Balanced ms)
    (isOpening : opening.piece = .char '(') (isClosing : closing.piece = .char ')') :
    Balanced (opening :: (ms ++ [closing])) :=
  have both := enclosed_parentheses (char?_char isOpening) (char?_char isClosing) inside.enclosed
    inside.openAfter_eq
  ⟨both.1, both.2⟩

theorem Written.balanced (written : Written t ms)
    (noParenthesis : .char '(' ∉ SheetFormula.pieces t ∧ .char ')' ∉ SheetFormula.pieces t) :
    Balanced ms :=
  balanced_other fun m met => ⟨written.char?_ne noParenthesis.1 m met,
    written.char?_ne noParenthesis.2 m met⟩

theorem undivided_layout (genuine : AllGenuine ms) (layout : ∀ m ∈ ms, m.isLayout = true) :
    Undivided separator 0 ms :=
  undivided_other fun m met => by
    cases separator <;>
      exact (genuine m met).char?_ne_of_layout (layout m met) (by decide) (by decide)

/-- Separators inside parentheses are none of the marks outside. -/
theorem Enclosed.undivided (enclosed : Enclosed depth ms) (outer : Nat) :
    Undivided separator (depth + (outer + 1)) ms := by
  induction ms generalizing depth with
  | nil => rfl
  | cons m ms ih =>
    obtain ⟨first, rest⟩ := enclosed_cons.1 enclosed
    rw [undivided_cons, depthAfter_add _ first]
    exact ⟨fun separates => by omega, ih rest⟩

theorem Balanced.undivided_parentheses {opening closing : Mark} (inside : Balanced ms)
    (isOpening : opening.piece = .char '(') :
    Undivided separator 0 (opening :: (ms ++ [closing])) := by
  have undivided : Undivided separator (0 + (0 + 1)) ms := inside.enclosed.undivided 0
  have left := (inside.enclosed.add 1).2
  rw [inside.openAfter_eq] at left
  have other : '(' ≠ separator.char := by cases separator <;> decide
  rw [undivided_cons, depthAfter_opening (char?_char isOpening), undivided_append, left,
    undivided_cons]
  refine ⟨fun separates => ?_, undivided, fun separates => absurd separates.1 (by decide), rfl⟩
  exact other (Option.some.inj ((char?_char isOpening).symm.trans separates.2))

end Mark

namespace Expression

/-! ## Parts that stay apart -/

/-- Whether a part stays what it is behind a name: a group does unless the name is that of a
function, and a leaf or a call would become a part of the name or get a longer one. -/
def staysBehind (name : Text) : Expression → Bool
  | plain _ _ | call _ _ _ => name.isEmpty
  | group _ _ => (FunctionName.canonical? name).isNone
  | operator _ => true

/-- The name at the end of a part that is laid out. -/
def nameBehind (style : Style) : Expression → Text
  | plain source [] => (Text.cutBeforeName (style.leaf source)).2
  | _ => []

mutual

/-- Whether all parts in rows stay what they are behind the names in front of them. -/
def parted (style : Style) : Expression → Bool
  | plain _ parts => partedBehind style [] parts
  | group _ parts => partedBehind style [] parts
  | call _ _ arguments => partedEach style arguments
  | operator _ => true

/-- Whether parts in a row stay what they are behind a name. -/
def partedBehind (style : Style) (name : Text) : List Expression → Bool
  | [] => true
  | e :: es => e.staysBehind name && parted style e && partedBehind style (e.nameBehind style) es

/-- Whether the parts of each of several expressions stay what they are. -/
def partedEach (style : Style) : List Expression → Bool
  | [] => true
  | e :: es => parted style e && partedEach style es

end

variable {P : Text → Prop} {style : Style} {name : Text} {e : Expression} {es : List Expression}

theorem staysBehind_nil (e : Expression) : e.staysBehind [] = true := by
  cases e with
  | group =>
    rw [staysBehind, FunctionName.canonical?_nil]
    rfl
  | plain | call | operator => rfl

/-- Behind no name a row stays what it is if it does behind some name. -/
theorem partedBehind_nil (parts : partedBehind style name es = true) :
    partedBehind style [] es = true := by
  cases es with
  | nil => rfl
  | cons e es =>
    rw [partedBehind, Bool.and_eq_true, Bool.and_eq_true] at parts ⊢
    exact ⟨⟨e.staysBehind_nil, parts.1.2⟩, parts.2⟩

theorem partedBehind_row (parts : parted style e = true) :
    partedBehind style [] e.row = true := by
  rcases e.row_cases with single | ⟨source, whole⟩
  · rw [single, partedBehind, staysBehind_nil, parts, partedBehind]
    rfl
  · rwa [whole, parted] at parts

/-! ## Arguments as rows -/

/-- The parts of an argument show all that its nodes show. -/
theorem openings_row (e : Expression) : openingsOfEach e.row = e.openings := by
  rcases e.row_cases with single | ⟨source, whole⟩
  · rw [single, openingsOfEach_cons, openingsOfEach_nil, List.append_nil]
  · conv => rhs; rw [whole, openings_plain]

theorem nodesOfEach_row_subset (e : Expression) : nodesOfEach e.row ⊆ e.nodes := by
  rcases e.row_cases with single | ⟨source, whole⟩
  · rw [single, nodesOfEach, nodesOfEach, List.append_nil]
    exact List.Subset.refl _
  · conv => rhs; rw [whole, nodes]
    exact List.subset_cons_self _ _

/-! ## Laid out marks -/

section Marks

variable {separator : Separator} {ms inside : List Mark} {front : Text}

/-- A known name has neither parentheses nor separators. -/
theorem not_mem_known {name : Text} (known : name ∈ FunctionName.known) {c : Char}
    (other : Text.isNameChar c = false) : .char c ∉ pieces name := by
  intro met
  have letters := (FunctionName.spells_of_mem_known known).2
  have isName := (FunctionName.spelling (letters c (Text.mem_of_mem_pieces met))).2.1
  rw [other] at isName
  cases isName

theorem not_mem_gap {e : Expression} {es : List Expression} {c : Char} (other : c ≠ ' ') :
    .char c ∉ pieces (gapBetween e es) := fun met =>
  other (eq_space_of_mem_gapBetween (Text.mem_of_mem_pieces met))

theorem not_mem_operator (op : Operator) (separator : Separator) :
    .char separator.char ∉ pieces op.lexeme := by
  refine fun met => absurd (Text.mem_of_mem_pieces met) ?_
  clear met
  cases separator <;> cases op <;> decide

theorem balanced_name {name : Text} (known : name ∈ FunctionName.known) (isName : Written name ms) :
    Balanced ms :=
  isName.balanced ⟨not_mem_known known (by decide +kernel), not_mem_known known (by decide +kernel)⟩

theorem balanced_gap {e : Expression} {es : List Expression} (gap : Written (gapBetween e es) ms) :
    Balanced ms :=
  gap.balanced ⟨not_mem_gap (by decide), not_mem_gap (by decide)⟩

mutual

/-- Laid out parts close the parentheses that they open, and no others. -/
theorem Typeset.balanced (tokens : ∀ t, P t → t.IsToken) {e : Expression} {ms : List Mark}
    (typeset : Typeset P style e ms) (genuine : AllGenuine ms) : Balanced ms := by
  match typeset with
  | .leaf holds _ written =>
    exact written.balanced ((tokens _ holds).noParenthesis_leaf style)
  | .group isOpening isClosing leading trailing inside =>
    have content := Balanced.padded (inside.balanced tokens)
      (allGenuine_append.1 genuine.tail).1 leading trailing
    exact content.parentheses isOpening isClosing
  | .call known _ isName isOpening isClosing each =>
    have inside := (allGenuine_append.1 (allGenuine_append.1 genuine).2.tail).1
    exact (balanced_name known isName).append
      ((each.balanced tokens inside).parentheses isOpening isClosing)
  | .operator written =>
    exact written.balanced
      ⟨fun met => Mark.not_mem_lexeme _ (by decide) (Text.mem_of_mem_pieces met),
        fun met => Mark.not_mem_lexeme _ (by decide) (Text.mem_of_mem_pieces met)⟩

theorem TypesetRow.balanced (tokens : ∀ t, P t → t.IsToken) {es : List Expression}
    {ms : List Mark} (typeset : TypesetRow P style es ms) (genuine : AllGenuine ms) :
    Balanced ms := by
  match typeset with
  | .nil => exact ⟨rfl, rfl⟩
  | .cons first _ between behind =>
    have parts := allGenuine_append.1 genuine
    have rest := allGenuine_append.1 parts.2
    exact (first.balanced tokens parts.1).append
      ((balanced_gap between).append (behind.balanced tokens rest.2))

theorem TypesetArguments.balanced (tokens : ∀ t, P t → t.IsToken) {arguments : List Expression}
    {inside : List Mark} (typeset : TypesetArguments P style arguments inside)
    (genuine : AllGenuine inside) : Balanced inside := by
  match typeset with
  | .none => exact ⟨rfl, rfl⟩
  | .last leading trailing argument =>
    exact .padded (argument.balanced tokens) genuine leading trailing
  | .next leading argument isSemicolon behind =>
    have parts := allGenuine_append.1 genuine
    have front := allGenuine_append.1 parts.1
    have semicolon : Balanced [_] := balanced_other fun m met => by
      rw [List.mem_singleton.1 met, char?_char isSemicolon]
      decide
    exact ((balanced_layout front.1 leading).append (argument.balanced tokens front.2)).append
      (semicolon.append (behind.balanced tokens parts.2.tail))

end

/-- A laid out part shows in its marks. -/
theorem Typeset.visible (tokens : ∀ t, P t → t.IsToken) (typeset : Typeset P style e ms)
    (genuine : AllGenuine ms) : ∃ m ∈ ms, m.isLayout = false := by
  cases typeset with
  | leaf holds visible written =>
    obtain ⟨p, met, noBlank⟩ := Text.exists_visible (tokens _ holds).trimmed visible
    exact written.visible ⟨p, (Text.mem_pieces_leaf noBlank style).2 met, noBlank⟩
  | group isOpening =>
    exact ⟨_, List.mem_cons_self, genuine.head.noLayout_char isOpening (by decide)⟩
  | @call name source arguments word inside opening closing known _ _ isOpening =>
    have met : opening ∈ word ++ opening :: (inside ++ [closing]) := by simp
    exact ⟨opening, met, (genuine opening met).noLayout_char isOpening (by decide)⟩
  | @operator op _ written =>
    exact written.visible (Text.exists_visible (by cases op <;> rfl) op.lexeme_ne_nil)

/-- No separator stands outside parentheses, but in a leaf. -/
theorem Typeset.undivided (tokens : ∀ t, P t → t.IsToken) (typeset : Typeset P style e ms)
    (genuine : AllGenuine ms)
    (free : ∀ t, e = plain t [] → .char separator.char ∉ pieces t) :
    Undivided separator 0 ms := by
  obtain ⟨noBlank, noName⟩ := satisfies_separator separator
  cases typeset with
  | leaf holds visible written =>
    refine undivided_other (written.char?_ne ?_)
    rw [Text.mem_pieces_leaf noBlank]
    exact free _ rfl
  | group isOpening _ leading trailing inside =>
    have content := Balanced.padded (inside.balanced tokens)
      (allGenuine_append.1 genuine.tail).1 leading trailing
    exact content.undivided_parentheses isOpening
  | call known _ isName isOpening _ each =>
    have inside := (allGenuine_append.1 (allGenuine_append.1 genuine).2.tail).1
    rw [undivided_append, (balanced_name known isName).openAfter_eq]
    exact ⟨undivided_other (isName.char?_ne (not_mem_known known noName)),
      (each.balanced tokens inside).undivided_parentheses isOpening⟩
  | operator written => exact undivided_other (written.char?_ne (not_mem_operator _ separator))

theorem TypesetRow.undivided (tokens : ∀ t, P t → t.IsToken) {es : List Expression}
    {ms : List Mark} (typeset : TypesetRow P style es ms) (genuine : AllGenuine ms)
    (free : ∀ t, plain t [] ∈ es → .char separator.char ∉ pieces t) :
    Undivided separator 0 ms := by
  match typeset with
  | .nil => rfl
  | .cons first _ between behind =>
    have parts := allGenuine_append.1 genuine
    have rest := allGenuine_append.1 parts.2
    have noSpace : separator.char ≠ ' ' := by cases separator <;> decide
    rw [undivided_append, (first.balanced tokens parts.1).openAfter_eq, undivided_append,
      (balanced_gap between).openAfter_eq]
    refine ⟨first.undivided tokens parts.1 fun t whole => free t (whole ▸ List.mem_cons_self),
      undivided_other (between.char?_ne (not_mem_gap noSpace)), ?_⟩
    exact behind.undivided tokens rest.2 fun t isLeaf => free t (List.mem_cons_of_mem _ isLeaf)

/-- The marks of a part of an argument list are those of an argument, with layout around them. -/
def TypesetPart (P : Text → Prop) (style : Style) (a : Expression) (part : List Mark) : Prop :=
  ∃ lead ms trail, part = lead ++ ms ++ trail ∧ (∀ m ∈ lead, m.isLayout = true) ∧
    (∀ m ∈ trail, m.isLayout = true) ∧ TypesetRow P style a.row ms

/-- The arguments of a laid out list are divided by semicolons. -/
theorem TypesetArguments.divides (tokens : ∀ t, P t → t.IsToken) {arguments : List Expression}
    {inside : List Mark} (typeset : TypesetArguments P style arguments inside)
    (genuine : AllGenuine inside) (several : 2 ≤ arguments.length → separator = .semicolon)
    (nonempty : arguments ≠ [])
    (free : ∀ a ∈ arguments, ∀ t, plain t [] ∈ a.row → .char separator.char ∉ pieces t) :
    ∃ parts, List.Forall₂ (TypesetPart P style) arguments parts ∧
      Divides separator 0 inside parts := by
  match typeset with
  | .none => exact absurd rfl nonempty
  | .last leading trailing argument =>
    have balanced := Balanced.padded (argument.balanced tokens) genuine leading trailing
    have parts := allGenuine_append.1 genuine
    have front := allGenuine_append.1 parts.1
    have inner := argument.balanced tokens front.2
    have flat := balanced_layout front.1 leading
    refine ⟨[_], .cons ⟨_, _, _, rfl, leading, trailing, argument⟩ .nil,
      .last balanced.enclosed ?_⟩
    rw [undivided_append, undivided_append, (flat.append inner).openAfter_eq, flat.openAfter_eq]
    exact ⟨⟨undivided_layout front.1 leading,
      argument.undivided tokens front.2 (free _ List.mem_cons_self)⟩,
        undivided_layout parts.2 trailing⟩
  | @TypesetArguments.next _ _ _ _ _ lead ms _ _ leading argument isSemicolon behind =>
    have parts := allGenuine_append.1 genuine
    have front := allGenuine_append.1 parts.1
    have flat := balanced_layout front.1 leading
    have whole := flat.append (argument.balanced tokens front.2)
    have atSemicolon := several (by simp)
    obtain ⟨others, related, divides⟩ := behind.divides tokens parts.2.tail (fun _ => atSemicolon)
      (List.cons_ne_nil _ _) fun b met => free b (List.mem_cons_of_mem _ met)
    have none : ∀ m ∈ ([] : List Mark), m.isLayout = true := fun _ met =>
      absurd met List.not_mem_nil
    refine ⟨(lead ++ ms) :: others,
      .cons ⟨lead, ms, [], (List.append_nil _).symm, leading, none, argument⟩ related, ?_⟩
    refine .next whole.enclosed whole.openAfter_eq ?_ (atSemicolon ▸ char?_char isSemicolon)
      divides
    rw [undivided_append, flat.openAfter_eq]
    exact ⟨undivided_layout front.1 leading,
      argument.undivided tokens front.2 (free _ List.mem_cons_self)⟩

theorem TypesetRow.visible (tokens : ∀ t, P t → t.IsToken) (typeset : TypesetRow P style es ms)
    (genuine : AllGenuine ms) (nonempty : es ≠ []) : ∃ m ∈ ms, m.isLayout = false := by
  cases typeset with
  | nil => exact absurd rfl nonempty
  | cons first =>
    obtain ⟨m, met, noLayout⟩ := first.visible tokens (allGenuine_append.1 genuine).1
    exact ⟨m, List.mem_append_left _ met, noLayout⟩

/-- The marks between the parentheses of a laid out call are cut into its arguments. -/
theorem TypesetArguments.argumentParts (tokens : ∀ t, P t → t.IsToken)
    {arguments : List Expression} (typeset : TypesetArguments P style arguments inside)
    (genuine : AllGenuine inside) (several : 2 ≤ arguments.length → separator = .semicolon)
    (filled : arguments ≠ [plain [] []])
    (free : ∀ a ∈ arguments, ∀ t, plain t [] ∈ a.row → .char separator.char ∉ pieces t) :
    List.Forall₂ (TypesetPart P style) arguments (Mark.argumentParts separator inside) := by
  by_cases empty : arguments = []
  · obtain rfl := empty
    cases typeset with
    | none =>
      rw [argumentParts_layout genuine fun m met => absurd met List.not_mem_nil]
      exact .nil
  · obtain ⟨parts, related, divides⟩ := typeset.divides tokens genuine several empty free
    rw [divides.argumentParts_eq ?_]
    · exact related
    cases typeset with
    | none => exact absurd rfl empty
    | @last a lead ms trail leading trailing argument =>
      have nonempty : a.row ≠ [] := fun none => filled (by rw [row_eq_nil.1 none])
      obtain ⟨m, met, noLayout⟩ := argument.visible tokens
        (allGenuine_append.1 (allGenuine_append.1 genuine).1).2 nonempty
      exact ⟨m, List.mem_append_left _ (List.mem_append_right _ met), noLayout⟩
    | @next a b others lead ms rest mark leading argument isSemicolon behind =>
      have met : mark ∈ lead ++ ms ++ mark :: rest := by simp
      exact ⟨mark, met, (genuine mark met).noLayout_char isSemicolon (by decide)⟩

/-- What a node says of the separators of its formula: its arguments are divided by the separator,
and nothing shows a semicolon where it is the comma. -/
structure Separates (separator : Separator) (n : Expression) : Prop where
  divided : n.Divided separator
  shown : n.ShowsSemicolon → separator = .semicolon

/-- No name reaches back over a closing parenthesis. -/
theorem name_parentheses {opening closing : Mark} (isClosing : closing.piece = .char ')') :
    (Text.cutBeforeName (front ++ sourceText (opening :: (ms ++ [closing])))).2 = [] := by
  have last : sourceText [closing] = [')'] := by
    rw [sourceText_cons, sourceText_nil, isClosing]
    rfl
  rw [← List.cons_append, sourceText_append, last, ← List.append_assoc]
  exact Text.name_concat_other (by decide +kernel) _

mutual

/-- The marks of a part open what its nodes say, where it stays what it is, and end in its name. -/
theorem Typeset.openings (tokens : ∀ t, P t → t.IsToken) {e : Expression} {ms : List Mark}
    {front : Text} (typeset : Typeset P style e ms) (genuine : AllGenuine ms)
    (separates : ∀ n ∈ e.nodes, n.Separates separator) (parts : parted style e = true)
    (stays : e.staysBehind (Text.cutBeforeName front).2 = true) :
    openingsFrom separator front ms = e.openings ∧
      (Text.cutBeforeName (front ++ sourceText ms)).2 = e.nameBehind style := by
  match typeset with
  | @Typeset.leaf _ _ t _ holds _ written =>
    have noName : (Text.cutBeforeName front).2 = (Text.cutBeforeName []).2 :=
      List.isEmpty_iff.1 stays
    have noOpening := written.char?_ne ((tokens _ holds).noParenthesis_leaf style).1
    rw [openingsFrom_other noOpening, openings_plain, openingsOfEach_nil, written.sourceText_eq]
    exact ⟨rfl, Text.name_append noName (style.leaf t)⟩
  | @Typeset.group _ _ _ es opening closing lead ms trail isOpening isClosing leading trailing
      inside =>
    have unknown : FunctionName.canonical? (Text.cutBeforeName front).2 = none :=
      Option.isNone_iff_eq_none.1 stays
    have within := (allGenuine_append.1 genuine.tail).1
    have content := Balanced.padded (inside.balanced tokens) within leading trailing
    have row := (allGenuine_append.1 (allGenuine_append.1 within).1).2
    have noName : (Text.cutBeforeName (front ++ ['('])).2 = [] :=
      Text.name_concat_other (by decide +kernel) front
    obtain ⟨behind, noNameBehind, same⟩ := openingsFrom_padded
      (inside.balanced tokens row).openAfter_eq within leading trailing noName
    rw [nodes, List.forall_mem_cons] at separates
    rw [parted, ← noNameBehind] at parts
    rw [openingsFrom_opening isOpening (char?_char isClosing) content.enclosed
      content.openAfter_eq, unknown, same, openings_group,
      inside.openings tokens row separates.2 parts, openingsFrom, List.append_nil]
    exact ⟨rfl, name_parentheses isClosing⟩
  | @Typeset.call _ _ name source arguments word inside opening closing known filled isName
      isOpening isClosing each =>
    have noName : (Text.cutBeforeName front).2 = (Text.cutBeforeName []).2 :=
      List.isEmpty_iff.1 stays
    have within := (allGenuine_append.1 (allGenuine_append.1 genuine).2.tail).1
    have content := each.balanced tokens within
    have noOpening : ∀ m ∈ word, m.char? ≠ some '(' :=
      isName.char?_ne (not_mem_known known (by decide +kernel))
    have letters : ∀ c ∈ name, Text.isNameChar c = true := fun c met =>
      (FunctionName.spelling ((FunctionName.spells_of_mem_known known).2 c met)).2.1
    have isKnown : FunctionName.canonical? (Text.cutBeforeName (front ++ name)).2 = some name := by
      rw [Text.name_append noName, List.nil_append, cutBeforeName_of_names letters]
      exact FunctionName.canonical?_eq_some.2
        ⟨known, FunctionName.uppercase_of_mem_known known⟩
    have noNameInside : (Text.cutBeforeName (front ++ name ++ ['('])).2 = [] :=
      Text.name_concat_other (by decide +kernel) _
    rw [nodes, List.forall_mem_cons] at separates
    rw [parted] at parts
    obtain ⟨⟨⟨-, free⟩, several⟩, separates⟩ := separates
    rw [openingsFrom_append_other noOpening, isName.sourceText_eq,
      openingsFrom_opening isOpening (char?_char isClosing) content.enclosed content.openAfter_eq,
      isKnown, each.openings tokens within separates parts noNameInside, openings_call,
      ← (each.argumentParts tokens within several filled free).length_eq, openingsFrom,
      List.append_nil]
    refine ⟨rfl, ?_⟩
    rw [sourceText_append, ← List.append_assoc]
    exact name_parentheses isClosing
  | .operator written =>
    have noOpening : ∀ m ∈ ms, m.char? ≠ some '(' := written.char?_ne fun met =>
      Mark.not_mem_lexeme _ (by decide) (Text.mem_of_mem_pieces met)
    rw [openingsFrom_other noOpening, written.sourceText_eq]
    exact ⟨by rw [openings, nodes]; rfl, Text.name_append_lexeme front _⟩

theorem TypesetRow.openings (tokens : ∀ t, P t → t.IsToken) {es : List Expression}
    {ms : List Mark} {front : Text} (typeset : TypesetRow P style es ms) (genuine : AllGenuine ms)
    (separates : ∀ n ∈ nodesOfEach es, n.Separates separator)
    (parts : partedBehind style (Text.cutBeforeName front).2 es = true) :
    openingsFrom separator front ms = openingsOfEach es := by
  match typeset with
  | .nil => exact openingsOfEach_nil.symm
  | @TypesetRow.cons _ _ e es ms gap ns first _ between behind =>
    have isPart := allGenuine_append.1 genuine
    have rest := allGenuine_append.1 isPart.2
    rw [nodesOfEach, List.forall_mem_append] at separates
    rw [partedBehind, Bool.and_eq_true, Bool.and_eq_true] at parts
    obtain ⟨here, name⟩ := first.openings tokens isPart.1 separates.1 parts.1.2 parts.1.1
    have noOpening : ∀ m ∈ gap, m.char? ≠ some '(' := between.char?_ne (not_mem_gap (by decide))
    rw [openingsFrom_append (first.balanced tokens isPart.1).openAfter_eq, here,
      openingsFrom_append_other noOpening, between.sourceText_eq, openingsOfEach_cons]
    refine congrArg _ (behind.openings tokens rest.2 separates.2 ?_)
    -- a space ends the name
    rcases gapBetween_cases e es with none | space
    · rw [none, List.append_nil, name]
      exact parts.2
    · rw [space, Text.name_concat_other (by decide +kernel)]
      exact partedBehind_nil parts.2

theorem TypesetArguments.openings (tokens : ∀ t, P t → t.IsToken) {arguments : List Expression}
    {inside : List Mark} {front : Text} (typeset : TypesetArguments P style arguments inside)
    (genuine : AllGenuine inside)
    (separates : ∀ n ∈ nodesOfEach arguments, n.Separates separator)
    (parts : partedEach style arguments = true) (noName : (Text.cutBeforeName front).2 = []) :
    openingsFrom separator front inside = openingsOfEach arguments := by
  match typeset with
  | .none => exact openingsOfEach_nil.symm
  | @TypesetArguments.last _ _ a lead ms trail leading trailing argument =>
    rw [nodesOfEach, List.forall_mem_append] at separates
    rw [partedEach, Bool.and_eq_true] at parts
    have row := (allGenuine_append.1 (allGenuine_append.1 genuine).1).2
    obtain ⟨behind, noNameBehind, same⟩ := openingsFrom_padded
      (argument.balanced tokens row).openAfter_eq genuine leading trailing noName
    rw [same, openingsOfEach_cons, openingsOfEach_nil, List.append_nil, ← openings_row]
    refine argument.openings tokens row (fun n isNode => ?_) ?_
    · exact separates.1 n (nodesOfEach_row_subset a isNode)
    · rw [noNameBehind]
      exact partedBehind_row parts.1
  | @TypesetArguments.next _ _ a b others lead ms rest mark leading argument isSemicolon behind =>
    rw [nodesOfEach, List.forall_mem_append] at separates
    rw [partedEach, Bool.and_eq_true] at parts
    have whole := allGenuine_append.1 genuine
    have row := (allGenuine_append.1 whole.1).2
    have isFront : AllGenuine (lead ++ ms ++ []) := by rw [List.append_nil]; exact whole.1
    obtain ⟨behindLead, noNameBehind, same⟩ := openingsFrom_padded
      (argument.balanced tokens row).openAfter_eq isFront leading
      (fun _ met => absurd met List.not_mem_nil) noName
    have flat := (balanced_layout (allGenuine_append.1 whole.1).1 leading).append
      (argument.balanced tokens row)
    rw [List.append_nil] at same
    have noOpening : mark.char? ≠ some '(' := by rw [char?_char isSemicolon]; decide
    rw [openingsFrom_append flat.openAfter_eq, same, openingsFrom_cons_other noOpening,
      isSemicolon, openingsOfEach_cons, ← openings_row]
    refine congr_arg₂ _ (argument.openings tokens row (fun n isNode => ?_) ?_)
      (behind.openings tokens whole.2.tail separates.2 parts.2 ?_)
    · exact separates.1 n (nodesOfEach_row_subset a isNode)
    · rw [noNameBehind]
      exact partedBehind_row parts.1
    · exact Text.name_concat_other (by decide +kernel) _

end

/-- The parts of an argument show its semicolons. -/
theorem mem_nodesOfEach_row {n : Expression} (isNode : n ∈ e.nodes) (shows : n.ShowsSemicolon) :
    n ∈ nodesOfEach e.row := by
  rcases e.row_cases with single | ⟨source, whole⟩
  · rwa [single, nodesOfEach, nodesOfEach, List.append_nil]
  · rw [whole, nodes] at isNode
    refine (List.mem_cons.1 isNode).resolve_left ?_
    rintro rfl
    cases empty : e.row with
    | nil =>
      rw [row_eq_nil.1 empty] at whole
      obtain ⟨rfl, -⟩ := plain.inj whole
      rw [empty, ShowsSemicolon, pieces] at shows
      cases shows
    | cons => rw [empty] at shows; exact shows

mutual

/-- A semicolon that a node shows stands among the marks. -/
theorem Typeset.semicolon {e n : Expression} {ms : List Mark} (typeset : Typeset P style e ms)
    (isNode : n ∈ e.nodes) (shows : n.ShowsSemicolon) : .char ';' ∈ ms.map piece := by
  match typeset with
  | .leaf _ _ written =>
    rw [nodes, nodesOfEach, List.mem_singleton] at isNode
    obtain rfl := isNode
    rw [written.pieces, Text.mem_pieces_leaf (by decide)]
    exact shows
  | .group _ _ _ _ inside =>
    rw [nodes] at isNode
    rcases List.mem_cons.1 isNode with rfl | isNode
    · cases shows
    · have met := inside.semicolon isNode shows
      simp [met]
  | .call _ _ _ _ _ each =>
    rw [nodes] at isNode
    have met := each.semicolon <| by
      rcases List.mem_cons.1 isNode with rfl | isNode
      · exact .inl shows
      · exact .inr ⟨n, isNode, shows⟩
    simp [met]
  | .operator _ =>
    rw [nodes, List.mem_singleton] at isNode
    obtain rfl := isNode
    cases shows

theorem TypesetRow.semicolon {es : List Expression} {n : Expression} {ms : List Mark}
    (typeset : TypesetRow P style es ms) (isNode : n ∈ nodesOfEach es)
    (shows : n.ShowsSemicolon) : .char ';' ∈ ms.map piece := by
  match typeset with
  | .nil => cases isNode
  | .cons first _ _ behind =>
    rw [nodesOfEach, List.mem_append] at isNode
    rcases isNode with isNode | isNode
    · simp [first.semicolon isNode shows]
    · simp [behind.semicolon isNode shows]

theorem TypesetArguments.semicolon {arguments : List Expression} {inside : List Mark}
    (typeset : TypesetArguments P style arguments inside)
    (shows : 2 ≤ arguments.length ∨ ∃ n ∈ nodesOfEach arguments, n.ShowsSemicolon) :
    .char ';' ∈ inside.map piece := by
  match typeset with
  | .none =>
    rcases shows with two | ⟨n, isNode, -⟩
    · cases two
    · cases isNode
  | .last _ _ argument =>
    obtain ⟨n, isNode, shows⟩ := shows.resolve_left (by simp)
    rw [nodesOfEach, nodesOfEach, List.append_nil] at isNode
    have met := argument.semicolon (mem_nodesOfEach_row isNode shows) shows
    simp [met]
  | .next _ _ isSemicolon _ => simp [isSemicolon]

end

end Marks

end Expression

/-! ## Formulas -/

open Mark Expression

/-- The nodes of a text agree with the separator of any text that has the marks of its parts. -/
theorem Mark.separates_read {P : Text → Prop} {style : Style} {t u : Text} {ms : List Mark}
    (closed : t.LiteralsClosed) (readable : Readable (marks t))
    (typeset : TypesetRow P style (read (.ofText t) false [] (marks t)).value ms)
    (isText : ms.map piece = pieces u) :
    ∀ n ∈ nodesOfEach (read (.ofText t) false [] (marks t)).value, n.Separates (.ofText u) := by
  have proper := proper_marks closed
  have shown : ∀ n ∈ nodesOfEach (read (.ofText t) false [] (marks t)).value, n.ShowsSemicolon →
      Separator.ofText u = .semicolon := fun n isNode shows => by
    rw [Separator.ofText_eq, if_pos (isText ▸ typeset.semicolon isNode shows)]
  -- a text with semicolons shows them again, and without them it is divided by none
  have separable : Separable (.ofText t) (.ofText u) (marks t) := by
    by_cases met : .char ';' ∈ pieces t
    · have atSemicolon : Separator.ofText t = .semicolon := by
        rw [Separator.ofText_eq, if_pos met]
      rw [atSemicolon] at shown ⊢
      obtain ⟨n, isNode, shows⟩ := exists_semicolon_read false [] readable proper
        (by rwa [joined_nil, map_piece_marks])
      exact .inl (shown n isNode shows)
    · cases after : Separator.ofText u with
      | comma => exact .inl (by rw [Separator.ofText_eq, if_neg met])
      | semicolon =>
        refine .inr fun m within isSemicolon => met ?_
        rw [← map_piece_marks]
        exact List.mem_map.2 ⟨m, within, piece_of_char? isSemicolon⟩
  exact fun n isNode => ⟨divided_read false [] readable proper separable n isNode, shown n isNode⟩

/-- What is laid out of a formula whose parts stand in a row is its body when it is read again. -/
theorem Formula.body_beautify {P : Text → Prop} {style : Style} {t : Text} {es : List Expression}
    (narrow : style.indentSize ≤ widestIndent) (row : Row P es) (firm : ∀ t, P t → t.FirmToken)
    (whole : (ofText t).tree = .plain (ofText t).body es)
    (nothing : es = [] → (ofText t).body = []) :
    (ofText (beautify style t)).body = layout style 0 (ofText t).tree := by
  have trimmed := trim_body_ofText t
  rw [beautify_eq narrow, body_ofText_withEquals _ ((ofText t).begins_layout_tree style trimmed)
    fun noEquals => (ofText t).head?_layout_tree style trimmed (head?_body_ofText noEquals), whole]
  exact row.dropEndWhile_layout_plain style 0 nothing firm

/-- An accepted text: the parts of its formula stand in a row, and these parts are laid out in the
body of what it is beautified to. -/
structure Formula.Relaid (style : Style) (t : Text) (es : List Expression) : Prop where
  whole : (ofText t).tree = .plain (ofText t).body es
  isRead : es = (read (ofText t).separator false [] (marks (ofText t).body)).value
  closed : (ofText t).body.LiteralsClosed
  readable : Readable (marks (ofText t).body)
  row : Row (fun u => u.FirmToken ∧ u.IsToken) es
  nothing : es = [] → (ofText t).body = []
  typeset : TypesetRow (fun u => u.FirmToken ∧ u.IsToken) style es
    (marks (ofText (beautify style t)).body)
  laidClosed : (ofText (beautify style t)).body.LiteralsClosed
  answer : (ofText (beautify style t)).tree? = .ok (ofText (beautify style t)).tree
  separates : ∀ n ∈ nodesOfEach es, n.Separates (ofText (beautify style t)).separator

theorem Formula.relaid {style : Style} {t : Text} {tree : Expression}
    (narrow : style.indentSize ≤ widestIndent) (accepted : (ofText t).tree? = .ok tree)
    (shelters : tree.sheltered style 0 = true) : ∃ es, Relaid style t es := by
  obtain ⟨es, whole, row, nothing⟩ := row_of_accepted
    (rowInvariant_continues.and rowInvariant_gathers) accepted
    fun closed => ⟨(ofText t).continues_marks closed, gathers_marks _⟩
  obtain ⟨rfl, closed, enclosed, -⟩ := (ofText t).paired_of_tree? accepted
  have body := body_beautify narrow row (fun _ => And.left) whole nothing
  have readable : Readable (marks (ofText t).body) := ⟨allGenuine_marks _, enclosed⟩
  have isRead : es = (read (ofText t).separator false [] (marks (ofText t).body)).value := by
    have parts := (ofText t).tree_parts
    rw [enclosed.cutAtClose_eq, strayLeaf, List.append_nil, whole] at parts
    exact (plain.inj parts).2
  have filled : ∀ n ∈ nodesOfEach es, n.Filled := by
    rw [isRead]
    exact fun n isNode =>
      (divided_read false [] readable (proper_marks closed) (.inl rfl) n isNode).filled
  rw [whole] at shelters body
  have settled := ((row.mono fun _ => And.left).shows_plain nothing shelters).settled
  have typeset := row.typeset_plain nothing (fun _ => And.left) shelters filled (covers_marks _)
  rw [← body] at settled typeset
  have balanced := typeset.balanced (fun _ => And.right) (allGenuine_marks _)
  have laidClosed := Text.literalsClosed_iff.2 settled.closed
  refine ⟨es, whole, isRead, closed, readable, row, nothing, typeset, laidClosed, ?_, ?_⟩
  · refine tree?_of_paired _ laidClosed ?_
    rw [← map_piece_marks, leftOpen?_map_piece]
    exact ⟨balanced.enclosed, balanced.openAfter_eq⟩
  · rw [isRead] at typeset ⊢
    exact separates_read closed readable typeset (map_piece_marks _)

/-- An accepted formula in which no leaf runs into what follows it keeps its calls and groups, each
call with as many arguments, if nothing that gets a line of its own begins with a connector. -/
theorem openings_beautify {style : Style} {t : Text} {tree : Expression}
    (narrow : style.indentSize ≤ widestIndent) (accepted : (Formula.ofText t).tree? = .ok tree)
    (shelters : tree.sheltered style 0 = true) (parts : tree.parted style = true) :
    ∃ laid, (Formula.ofText (beautify style t)).tree? = .ok laid ∧
      laid.openings = tree.openings ∧ laid.calls = tree.calls := by
  obtain ⟨es, relaid⟩ := Formula.relaid narrow accepted shelters
  obtain ⟨rfl, -⟩ := (Formula.ofText t).paired_of_tree? accepted
  rw [relaid.whole, parted] at parts
  have genuine := allGenuine_marks (Formula.ofText (beautify style t)).body
  have balanced := relaid.typeset.balanced (fun _ => And.right) genuine
  have openings : openingsFrom _ [] (marks (Formula.ofText (beautify style t)).body) =
      openingsOfEach es :=
    relaid.typeset.openings (fun _ => And.right) genuine relaid.separates parts
  have same : (Formula.ofText (beautify style t)).tree.openings =
      (Formula.ofText t).tree.openings := by
    rw [openings_tree _ relaid.answer, relaid.whole, openings_plain, ← openings]
    exact (openingsFrom_marks _ _ balanced.openAfter_eq [] rfl).symm
  exact ⟨_, relaid.answer, same, congrArg (List.filterMap _) same⟩

/-- A comma in a group, and leaves in front of this group and of a call without arguments. -/
theorem openings_beautify_nested : ∃ laid,
    (Formula.ofText (beautify .standard "=if(1 (a,b),-x!pi( ))".toList)).tree? = .ok laid ∧
      laid.calls = [("IF".toList, 2), ("PI".toList, 0)] := by
  have isOk : (Formula.ofText "=if(1 (a,b),-x!pi( ))".toList).tree?.isOk = true := by
    decide +kernel
  have holds : (Formula.ofText "=if(1 (a,b),-x!pi( ))".toList).tree.sheltered .standard 0 = true ∧
      (Formula.ofText "=if(1 (a,b),-x!pi( ))".toList).tree.parted .standard = true ∧
      (Formula.ofText "=if(1 (a,b),-x!pi( ))".toList).tree.calls =
        [("IF".toList, 2), ("PI".toList, 0)] := by
    decide +kernel
  cases accepted : (Formula.ofText "=if(1 (a,b),-x!pi( ))".toList).tree? with
  | error fault => rw [accepted] at isOk; cases isOk
  | ok tree =>
    obtain ⟨rfl, -⟩ := Formula.paired_of_tree? _ accepted
    obtain ⟨laid, answer, -, calls⟩ := openings_beautify (by decide) accepted holds.1 holds.2.1
    exact ⟨laid, answer, calls.trans holds.2.2⟩

/-- A blank between a name and a group is dropped, and makes a call of both. -/
theorem beautify_calls_change :
    (Formula.ofText "=T (A)".toList).tree?.isOk = true ∧
      Style.standard.indentSize ≤ widestIndent ∧
      (Formula.ofText "=T (A)".toList).tree.calls = [] ∧
      (Formula.ofText (beautify .standard "=T (A)".toList)).tree.calls = [("T".toList, 1)] := by
  refine ⟨?_, ?_, ?_, ?_⟩ <;> decide +kernel

end SheetFormula
