import SheetFormula.Proofs.Reading.Openings

/-!
# Semicolons for commas

A comma separates arguments if the innermost open parenthesis around it opens a call. A text is
rewritten with semicolons in place of these commas only (`Text.withSemicolons`). The readers, which
cut argument lists at separators, find the rewritten parts where they would find the parts before
(`argumentParts_semicolons`).

## Main definitions

* `Scope` — the parentheses that are open at a piece, and the text in front of it
* `Piece.semicolons`, `Mark.semicolons`, `Text.withSemicolons` — semicolons for separating commas
* `Mark.Replaces` — marks that differ by a semicolon for a comma at most
* `Scope.Joins` — marks that no comma of the innermost call separates
-/

namespace SheetFormula

/-- What stands around a piece of a text. -/
structure Scope where
  /-- Whether each of the open parentheses opens a call, the innermost first. -/
  opened : List Bool
  /-- The text in front. -/
  front : Text

namespace Scope

/-- The scope at the start of a text. -/
def start : Scope :=
  ⟨[], []⟩

/-- Whether a parenthesis opens a call here: the name of a known function stands in front. -/
def opensCall (s : Scope) : Bool :=
  (FunctionName.canonical? (Text.cutBeforeName s.front).2).isSome

/-- Whether the innermost open parenthesis opens a call. -/
def inCall (s : Scope) : Bool :=
  s.opened.headD false

/-- The scope behind a piece. -/
def behind (s : Scope) (p : Piece) : Scope where
  opened :=
    if p.char? = some '(' then s.opensCall :: s.opened
    else if p.char? = some ')' then s.opened.tail
    else s.opened
  front := s.front ++ p.text

/-- The scope behind several pieces. -/
def behindEach (s : Scope) (ps : List Piece) : Scope :=
  ps.foldl behind s

/-- A semicolon for a comma that separates arguments; any other piece as it is. -/
def rewrite (s : Scope) (p : Piece) : Piece :=
  if s.inCall ∧ p = .char ',' then .char ';' else p

end Scope

/-- The pieces with semicolons in place of the commas that separate arguments. -/
def Piece.semicolons (s : Scope) : List Piece → List Piece
  | [] => []
  | p :: ps => s.rewrite p :: semicolons (s.behind p) ps

/-- The marks with semicolons in place of the commas that separate arguments. -/
def Mark.semicolons (s : Scope) : List Mark → List Mark
  | [] => []
  | m :: ms => { m with piece := s.rewrite m.piece } :: semicolons (s.behind m.piece) ms

/-- The text with semicolons in place of the commas that separate arguments: those outside literals
whose innermost enclosing parenthesis opens a call of a known function. -/
def Text.withSemicolons (t : Text) : Text :=
  textOf (Piece.semicolons .start (pieces t))

/-! ## Scopes -/

namespace Scope

variable {s : Scope} {p : Piece} {ps : List Piece}

theorem rewrite_other (noComma : p ≠ .char ',') : s.rewrite p = p :=
  if_neg fun separates => noComma separates.2

theorem rewrite_outside (outside : s.inCall = false) : s.rewrite p = p :=
  if_neg fun separates => by rw [outside] at separates; exact absurd separates.1 (by decide)

theorem rewrite_separating (inside : s.inCall = true) : s.rewrite (.char ',') = .char ';' :=
  if_pos ⟨inside, rfl⟩

theorem rewrite_cases (s : Scope) (p : Piece) :
    s.rewrite p = p ∨ p = .char ',' ∧ s.rewrite p = .char ';' := by
  unfold rewrite
  split
  · next separates => exact .inr ⟨separates.2, rfl⟩
  · exact .inl rfl

theorem opened_behind_opening (isOpening : p.char? = some '(') :
    (s.behind p).opened = s.opensCall :: s.opened :=
  if_pos isOpening

theorem opened_behind_closing (isClosing : p.char? = some ')') :
    (s.behind p).opened = s.opened.tail := by
  rw [behind, if_neg (by simp [isClosing]), if_pos isClosing]

theorem opened_behind_other (noOpening : p.char? ≠ some '(') (noClosing : p.char? ≠ some ')') :
    (s.behind p).opened = s.opened := by
  rw [behind, if_neg noOpening, if_neg noClosing]

/-- Pieces without parentheses leave all parentheses open. -/
theorem opened_behindEach_other
    (others : ∀ p ∈ ps, p.char? ≠ some '(' ∧ p.char? ≠ some ')') :
    (s.behindEach ps).opened = s.opened := by
  induction ps generalizing s with
  | nil => rfl
  | cons p ps ih =>
    obtain ⟨noOpening, noClosing⟩ := others p List.mem_cons_self
    exact (ih fun q met => others q (List.mem_cons_of_mem _ met)).trans
      (opened_behind_other noOpening noClosing)

theorem front_behindEach (s : Scope) (ps : List Piece) :
    (s.behindEach ps).front = s.front ++ textOf ps := by
  induction ps generalizing s with
  | nil => exact (List.append_nil _).symm
  | cons p ps ih =>
    have step : ((s.behind p).behindEach ps).front = (s.front ++ p.text) ++ textOf ps := ih _
    rw [List.append_assoc] at step
    exact step

theorem inCall_of_opened {r : Scope} (same : r.opened = s.opened) : r.inCall = s.inCall := by
  rw [inCall, inCall, same]

end Scope

namespace Piece

variable {s : Scope} {ps qs : List Piece}

theorem semicolons_append :
    semicolons s (ps ++ qs) = semicolons s ps ++ semicolons (s.behindEach ps) qs := by
  induction ps generalizing s with
  | nil => rfl
  | cons p ps ih =>
    rw [List.cons_append, semicolons, semicolons, ih]
    rfl

/-- Without commas nothing is rewritten. -/
theorem semicolons_other (noComma : ∀ p ∈ ps, p ≠ .char ',') : semicolons s ps = ps := by
  induction ps generalizing s with
  | nil => rfl
  | cons p ps ih =>
    rw [semicolons, Scope.rewrite_other (noComma p List.mem_cons_self),
      ih fun q met => noComma q (List.mem_cons_of_mem _ met)]

/-- Of the text in front, only the name at its end matters. -/
theorem semicolons_congr {r : Scope} (opened : r.opened = s.opened)
    (sameName : (Text.cutBeforeName r.front).2 = (Text.cutBeforeName s.front).2) :
    semicolons r ps = semicolons s ps := by
  induction ps generalizing r s with
  | nil => rfl
  | cons p ps ih =>
    have rewrites : r.rewrite p = s.rewrite p := by
      rw [Scope.rewrite, Scope.rewrite, Scope.inCall_of_opened opened]
    have opens : r.opensCall = s.opensCall := by
      rw [Scope.opensCall, Scope.opensCall, sameName]
    have openedBehind : (r.behind p).opened = (s.behind p).opened := by
      rw [Scope.behind, Scope.behind, opened, opens]
    rw [semicolons, semicolons, rewrites, ih openedBehind (Text.name_append sameName p.text)]

/-- If no semicolon comes in, nothing is rewritten. -/
theorem semicolons_eq_self (noSemicolon : .char ';' ∉ semicolons s ps) : semicolons s ps = ps := by
  induction ps generalizing s with
  | nil => rfl
  | cons p ps ih =>
    rw [semicolons, List.mem_cons, not_or] at noSemicolon
    rcases s.rewrite_cases p with same | ⟨-, semicolon⟩
    · rw [semicolons, same, ih noSemicolon.2]
    · exact absurd semicolon.symm noSemicolon.1

end Piece

namespace Mark

open Scope

variable {s : Scope} {m n : Mark} {ms ns : List Mark}

@[simp] theorem map_piece_semicolons :
    (semicolons s ms).map piece = Piece.semicolons s (ms.map piece) := by
  induction ms generalizing s with
  | nil => rfl
  | cons m ms ih => rw [semicolons, List.map_cons, List.map_cons, Piece.semicolons, ih]

theorem semicolons_append :
    semicolons s (ms ++ ns) = semicolons s ms ++ semicolons (s.behindEach (ms.map piece)) ns := by
  induction ms generalizing s with
  | nil => rfl
  | cons m ms ih =>
    rw [List.cons_append, semicolons, semicolons, ih]
    rfl

theorem semicolons_cons_same (same : s.rewrite m.piece = m.piece) :
    semicolons s (m :: ms) = m :: semicolons (s.behind m.piece) ms := by
  rw [semicolons, same]

/-- Without commas nothing is rewritten. -/
theorem semicolons_other (noComma : ∀ m ∈ ms, m.char? ≠ some ',') : semicolons s ms = ms := by
  induction ms generalizing s with
  | nil => rfl
  | cons m ms ih =>
    have other : m.piece ≠ .char ',' := fun isComma =>
      noComma m List.mem_cons_self (congrArg Piece.char? isComma)
    rw [semicolons_cons_same (rewrite_other other),
      ih fun n met => noComma n (List.mem_cons_of_mem _ met)]

/-- What a mark opens and closes is the innermost of the open parentheses. -/
theorem opened_behind {inner outer : List Bool} (opened : s.opened = inner ++ outer)
    (enclosed : ¬(inner.length = 0 ∧ m.char? = some ')')) :
    ∃ inner', (s.behind m.piece).opened = inner' ++ outer ∧
      inner'.length = m.depthAfter inner.length := by
  by_cases isOpening : m.char? = some '('
  · refine ⟨s.opensCall :: inner, ?_, (depthAfter_opening isOpening).symm⟩
    rw [opened_behind_opening isOpening, opened, List.cons_append]
  · by_cases isClosing : m.char? = some ')'
    · obtain ⟨call, inner, rfl⟩ := List.exists_cons_of_ne_nil
        fun none => enclosed ⟨List.length_eq_zero_iff.2 none, isClosing⟩
      refine ⟨inner, ?_, ?_⟩
      · rw [opened_behind_closing isClosing, opened, List.cons_append, List.tail_cons]
      · rw [depthAfter_closing isClosing]
        rfl
    · exact ⟨inner, (opened_behind_other isOpening isClosing).trans opened,
        (depthAfter_other isOpening isClosing).symm⟩

/-- Behind enclosed marks that leave nothing open, the parentheses in front of them are open. -/
theorem opened_behindEach {inner outer : List Bool} (opened : s.opened = inner ++ outer)
    (enclosed : Enclosed inner.length ms) (balanced : openAfter inner.length ms = 0) :
    (s.behindEach (ms.map piece)).opened = outer := by
  induction ms generalizing s inner with
  | nil => rw [List.length_eq_zero_iff.1 balanced] at opened; exact opened
  | cons m ms ih =>
    obtain ⟨first, rest⟩ := enclosed_cons.1 enclosed
    obtain ⟨inner', openedBehind, depth⟩ := opened_behind opened first
    rw [openAfter_cons] at balanced
    rw [← depth] at rest balanced
    exact ih openedBehind rest balanced

/-! ## Marks that differ by semicolons -/

/-- The second mark is the first one, or a semicolon in place of a comma. -/
def Replaces (m n : Mark) : Prop :=
  n = m ∨ m.piece = .char ',' ∧ n = { m with piece := .char ';' }

theorem replaces_semicolons (s : Scope) (ms : List Mark) :
    List.Forall₂ Replaces ms (semicolons s ms) := by
  induction ms generalizing s with
  | nil => exact .nil
  | cons m ms ih =>
    refine .cons ?_ (ih _)
    rcases s.rewrite_cases m.piece with same | ⟨comma, semicolon⟩
    · exact .inl (by rw [same])
    · exact .inr ⟨comma, by rw [semicolon]⟩

theorem Replaces.char? (replaces : Replaces m n) {c : Char} (noComma : c ≠ ',')
    (noSemicolon : c ≠ ';') : n.char? = some c ↔ m.char? = some c := by
  rcases replaces with rfl | ⟨comma, rfl⟩
  · exact Iff.rfl
  · rw [Mark.char?, Mark.char?, comma]
    simp [Piece.char?, noComma.symm, noSemicolon.symm]

theorem Replaces.alike (replaces : Replaces m n) : Alike m n :=
  ⟨(replaces.char? (by decide) (by decide)).symm, (replaces.char? (by decide) (by decide)).symm⟩

theorem Replaces.isLayout_eq (replaces : Replaces m n) : n.isLayout = m.isLayout := by
  rcases replaces with rfl | ⟨-, rfl⟩ <;> rfl

theorem Replaces.isUnclosed_eq (replaces : Replaces m n) : n.isUnclosed = m.isUnclosed := by
  rcases replaces with rfl | ⟨comma, rfl⟩
  · rfl
  · rw [isUnclosed, isUnclosed, comma]
    rfl

theorem Replaces.genuine (replaces : Replaces m n) (genuine : m.Genuine) : n.Genuine := by
  rcases replaces with rfl | ⟨comma, rfl⟩
  · exact genuine
  · refine ⟨fun layout => ?_, fun c isChar blank => ?_, fun _ _ => nofun, nofun⟩
    · exact absurd (char?_char comma) (genuine.char?_ne_of_layout layout (by decide) (by decide))
    · obtain rfl := Piece.char.inj isChar
      exact absurd blank (by decide)

theorem allGenuine_of_replaces (replaces : List.Forall₂ Replaces ms ns)
    (genuine : AllGenuine ms) : AllGenuine ns := by
  induction replaces with
  | nil => exact genuine
  | cons first _ ih => exact List.forall_mem_cons.2 ⟨first.genuine genuine.head, ih genuine.tail⟩

theorem closed_of_replaces (replaces : List.Forall₂ Replaces ms ns)
    (closed : ∀ m ∈ ms, m.isUnclosed = false) : ∀ n ∈ ns, n.isUnclosed = false := by
  induction replaces with
  | nil => exact closed
  | cons first _ ih =>
    obtain ⟨here, behind⟩ := List.forall_mem_cons.1 closed
    exact List.forall_mem_cons.2 ⟨first.isUnclosed_eq.trans here, ih behind⟩

theorem map_isLayout_of_replaces (replaces : List.Forall₂ Replaces ms ns) :
    ns.map isLayout = ms.map isLayout := by
  induction replaces with
  | nil => rfl
  | cons first _ ih => rw [List.map_cons, List.map_cons, first.isLayout_eq, ih]

/-- Semicolons open and close nothing, and neither do commas. -/
theorem enclosed_of_replaces {depth : Nat} (replaces : List.Forall₂ Replaces ms ns) :
    (Enclosed depth ms ↔ Enclosed depth ns) ∧ openAfter depth ms = openAfter depth ns :=
  Alike.enclosed (replaces.imp fun _ _ => Replaces.alike)

theorem Readable.of_replaces (replaces : List.Forall₂ Replaces ms ns) (readable : Readable ms) :
    Readable ns :=
  ⟨allGenuine_of_replaces replaces readable.genuine,
    (enclosed_of_replaces replaces).1.1 readable.enclosed⟩

/-! ## Operators -/

/-- Neither separator belongs to an operator. -/
theorem isPrefixOf_of_replaces {lexeme : Text} (noComma : ',' ∉ lexeme) (noSemicolon : ';' ∉ lexeme)
    {t u : Text} (replaces : List.Forall₂ (fun c d => d = c ∨ c = ',' ∧ d = ';') t u) :
    lexeme.isPrefixOf u = lexeme.isPrefixOf t := by
  induction replaces generalizing lexeme with
  | nil => rfl
  | cons first _ ih =>
    cases lexeme with
    | nil => rfl
    | cons c lexeme =>
      rw [List.mem_cons, not_or] at noComma noSemicolon
      rw [List.isPrefixOf, List.isPrefixOf, ih noComma.2 noSemicolon.2]
      rcases first with rfl | ⟨rfl, rfl⟩
      · rfl
      · rw [beq_false_of_ne (Ne.symm noComma.1), beq_false_of_ne (Ne.symm noSemicolon.1)]

theorem replaces_sourceText (replaces : List.Forall₂ Replaces ms ns) :
    List.Forall₂ (fun c d => d = c ∨ c = ',' ∧ d = ';') (sourceText ms) (sourceText ns) := by
  induction replaces with
  | nil => exact .nil
  | cons first _ ih =>
    rw [sourceText_cons, sourceText_cons]
    refine List.rel_append ?_ ih
    rcases first with rfl | ⟨comma, rfl⟩
    · exact List.forall₂_same.2 fun _ _ => .inl rfl
    · rw [comma]
      exact .cons (.inr ⟨rfl, rfl⟩) .nil

/-- No operator is told by a separator, nor by one behind it. -/
theorem standaloneOperator?_of_replaces (afterOperand : Bool) (pending : Text)
    (replaces : List.Forall₂ Replaces ms ns) :
    standaloneOperator? afterOperand pending ns = standaloneOperator? afterOperand pending ms := by
  have starts : Operator.atStart? (sourceText (ns.take 2)) =
      Operator.atStart? (sourceText (ms.take 2)) := by
    have same : (fun op : Operator => op.lexeme.isPrefixOf (sourceText (ns.take 2))) =
        fun op => op.lexeme.isPrefixOf (sourceText (ms.take 2)) := by
      funext op
      exact isPrefixOf_of_replaces (by cases op <;> decide) (by cases op <;> decide)
        (replaces_sourceText (List.forall₂_take 2 replaces))
    rw [Operator.atStart?, Operator.atStart?, same]
  have joins : ∀ op : Operator,
      joinsToken op afterOperand pending ((ns.drop op.width).head?.bind Mark.char?) =
        joinsToken op afterOperand pending ((ms.drop op.width).head?.bind Mark.char?) := by
    intro op
    have behind := List.forall₂_drop op.width replaces
    generalize ms.drop op.width = ms at behind
    generalize ns.drop op.width = ns at behind
    cases behind with
    | nil => rfl
    | cons first _ =>
      rcases first with rfl | ⟨comma, rfl⟩
      · rfl
      · have isComma := char?_char comma
        simp only [List.head?_cons, Option.bind_some, isComma]
        cases op <;> rfl
  simp only [standaloneOperator?, starts, joins]

/-! ## Trimmed marks -/

/-- Marks are trimmed alike whether they are rewritten before or after. -/
theorem trimmed_semicolons (genuine : AllGenuine ms) (complete : AllComplete ms)
    (noName : (Text.cutBeforeName s.front).2 = []) :
    ∃ r : Scope, r.opened = s.opened ∧ (Text.cutBeforeName r.front).2 = [] ∧
      trimmed (semicolons s ms) = semicolons r (trimmed ms) := by
  have closed := closed_of_replaces (replaces_semicolons s ms) fun m met => (complete m met).closed
  obtain ⟨lead, trail, whole, leading, trailing⟩ := trimEnds_split isLayout ms
  have leadWithin : lead ⊆ ms := fun m met => by rw [whole]; simp [met]
  have trailWithin : trail ⊆ ms := fun m met => by rw [whole]; simp [met]
  -- layout is neither a parenthesis nor a comma
  have other : ∀ ns ⊆ ms, (∀ m ∈ ns, m.isLayout = true) → ∀ c ∈ ['(', ')', ','], ∀ m ∈ ns,
      m.char? ≠ some c := by
    intro ns within layout c among m met
    have kinds := List.all_eq_true.1 (by decide : ['(', ')', ','].all fun c =>
      !Text.isBlank c && !Text.isConnector c) c among
    simp only [Bool.and_eq_true, Bool.not_eq_true'] at kinds
    exact (genuine m (within met)).char?_ne_of_layout (layout m met) kinds.1 kinds.2
  have leadOther := other lead leadWithin leading
  have trailOther := other trail trailWithin trailing
  refine ⟨s.behindEach (lead.map piece), ?_, ?_, ?_⟩
  · refine Scope.opened_behindEach_other fun p met => ?_
    obtain ⟨m, within, rfl⟩ := List.mem_map.1 met
    exact ⟨leadOther '(' (by decide) m within, leadOther ')' (by decide) m within⟩
  · rw [Scope.front_behindEach]
    exact name_append_layout (genuine.of_subset leadWithin) leading noName
  · rw [Mark.trimmed_eq closed, complete.trimmed_eq]
    have ends := map_isLayout_of_replaces
      (replaces_semicolons (s.behindEach (lead.map piece)) (trimEnds isLayout ms))
    conv => lhs; rw [whole]
    rw [semicolons_append, semicolons_append, semicolons_other (leadOther ',' (by decide)),
      semicolons_other (trailOther ',' (by decide)), trimEnds_append leading trailing]
    refine trimEnds_eq_self (fun n isFirst => ?_) fun n isLast => ?_
    · have same := congrArg List.head? ends
      rw [List.head?_map, List.head?_map, isFirst] at same
      obtain ⟨m, isFirst, same⟩ := Option.map_eq_some_iff.1 same.symm
      exact same ▸ head?_trimEnds isFirst
    · have same := congrArg List.getLast? ends
      rw [List.getLast?_map, List.getLast?_map, isLast] at same
      obtain ⟨m, isLast, same⟩ := Option.map_eq_some_iff.1 same.symm
      exact same ▸ getLast?_trimEnds isLast

/-! ## Argument lists -/

/-- The second marks are those of an argument, rewritten where the argument stands. -/
def Rewritten (part other : List Mark) : Prop :=
  ∃ r : Scope, r.inCall = true ∧ (Text.cutBeforeName r.front).2 = [] ∧ other = semicolons r part

/-- Rewritten marks are cut where the marks are cut. -/
theorem cutAtSeparators_semicolons {inner outer : List Bool}
    (opened : s.opened = inner ++ true :: outer) (enclosed : Enclosed inner.length ms)
    (noSemicolon : ∀ m ∈ ms, m.char? ≠ some ';') :
    ∃ parts, cutAtSeparators .semicolon inner.length (semicolons s ms) =
        (semicolons s (cutAtSeparators .comma inner.length ms).1, parts) ∧
      List.Forall₂ Rewritten (cutAtSeparators .comma inner.length ms).2 parts := by
  induction ms generalizing s inner with
  | nil => exact ⟨[], rfl, .nil⟩
  | cons m ms ih =>
    obtain ⟨first, rest⟩ := enclosed_cons.1 enclosed
    obtain ⟨here, behind⟩ := List.forall_mem_cons.1 noSemicolon
    obtain ⟨inner', openedBehind, depth⟩ := opened_behind opened first
    have replaces : Replaces m { m with piece := s.rewrite m.piece } := by
      cases replaces_semicolons s (m :: ms) with
      | cons first _ => exact first
    rw [← depth] at rest
    obtain ⟨parts, cut, rewritten⟩ := ih openedBehind rest behind
    rw [depth] at cut rewritten
    rw [semicolons, cutAtSeparators, cutAtSeparators, ← replaces.alike.depthAfter, cut]
    by_cases separates : inner.length = 0 ∧ m.char? = some ','
    · -- the separator is rewritten, and no name reaches back over it
      have isComma := piece_of_char? separates.2
      have inside : s.inCall = true := by
        rw [inCall, opened, List.length_eq_zero_iff.1 separates.1]
        rfl
      have stays : (s.behind m.piece).inCall = true := by
        rw [inCall_of_opened (opened_behind_other _ _), inside] <;> (rw [isComma]; decide)
      have flat : m.depthAfter inner.length = 0 := by
        rw [depthAfter_other, separates.1] <;> (rw [separates.2]; decide)
      have isSemicolon : inner.length = 0 ∧
          ({ m with piece := s.rewrite m.piece } : Mark).char? = some Separator.semicolon.char := by
        refine ⟨separates.1, ?_⟩
        rw [isComma, rewrite_separating inside]
        rfl
      rw [flat] at cut rewritten
      rw [if_pos isSemicolon, if_pos (show _ ∧ m.char? = some Separator.comma.char from separates),
        cut]
      refine ⟨_, rfl, .cons ⟨_, stays, ?_, rfl⟩ rewritten⟩
      rw [isComma]
      exact Text.name_concat_other (by decide +kernel) s.front
    · have joins : ¬(inner.length = 0 ∧
          ({ m with piece := s.rewrite m.piece } : Mark).char? =
            some Separator.semicolon.char) := by
        rintro ⟨atStart, isSemicolon⟩
        rcases replaces with same | ⟨comma, -⟩
        · rw [same] at isSemicolon
          exact here isSemicolon
        · exact separates ⟨atStart, char?_char comma⟩
      rw [if_neg joins, if_neg (show ¬(_ ∧ m.char? = some Separator.comma.char) from separates)]
      exact ⟨parts, rfl, rewritten⟩

/-- The arguments of a rewritten list are the rewritten arguments of the list. -/
theorem argumentParts_semicolons (inside : s.inCall = true)
    (noName : (Text.cutBeforeName s.front).2 = []) (enclosed : Enclosed 0 ms)
    (noSemicolon : ∀ m ∈ ms, m.char? ≠ some ';') :
    List.Forall₂ Rewritten (argumentParts .comma ms)
      (argumentParts .semicolon (semicolons s ms)) := by
  obtain ⟨outer, opened⟩ : ∃ outer, s.opened = [] ++ true :: outer := by
    unfold inCall at inside
    cases opened : s.opened with
    | nil => rw [opened] at inside; cases inside
    | cons call outer => rw [opened] at inside; exact ⟨outer, congrArg (· :: outer) inside⟩
  obtain ⟨parts, cut, rewritten⟩ := cutAtSeparators_semicolons opened enclosed noSemicolon
  rw [List.length_nil] at cut rewritten
  rw [argumentParts, argumentParts, cut]
  have first : Rewritten (cutAtSeparators .comma 0 ms).1
      (semicolons s (cutAtSeparators .comma 0 ms).1) := ⟨s, inside, noName, rfl⟩
  have layout : (semicolons s (cutAtSeparators .comma 0 ms).1).all isLayout =
      (cutAtSeparators .comma 0 ms).1.all isLayout := by
    have same := map_isLayout_of_replaces (replaces_semicolons s (cutAtSeparators .comma 0 ms).1)
    rw [← Function.id_comp isLayout, ← List.all_map, same, List.all_map]
  revert rewritten first layout
  rcases cutAtSeparators .comma 0 ms with ⟨part, others⟩
  intro rewritten first layout
  cases rewritten with
  | nil =>
    simp only [layout]
    split
    · exact .nil
    · exact .cons first .nil
  | cons second others => exact .cons first (.cons second others)

end Mark

/-! ## Marks without a separator of the innermost call -/

/-- In a call, no comma among the marks separates arguments of this call. -/
def Scope.Joins (s : Scope) (ms : List Mark) : Prop :=
  s.inCall = true → Mark.Undivided .comma 0 ms

namespace Scope.Joins

open Mark

variable {s : Scope} {m : Mark} {ms ns : List Mark}

/-- A mark that is no parenthesis is not rewritten. -/
theorem cons (joins : s.Joins (m :: ms)) (noOpening : m.char? ≠ some '(')
    (noClosing : m.char? ≠ some ')') :
    (s.behind m.piece).Joins ms ∧
      semicolons s (m :: ms) = m :: semicolons (s.behind m.piece) ms := by
  have same : (s.behind m.piece).inCall = s.inCall :=
    inCall_of_opened (opened_behind_other noOpening noClosing)
  cases inside : s.inCall with
  | false =>
    have joinsBehind : (s.behind m.piece).Joins ms := by
      intro isInside
      rw [same, inside] at isInside
      cases isInside
    exact ⟨joinsBehind, semicolons_cons_same (rewrite_outside inside)⟩
  | true =>
    obtain ⟨noSeparator, rest⟩ := undivided_cons.1 (joins inside)
    rw [depthAfter_other noOpening noClosing] at rest
    have noComma : m.piece ≠ .char ',' := fun isComma => noSeparator ⟨rfl, char?_char isComma⟩
    exact ⟨fun _ => rest, semicolons_cons_same (rewrite_other noComma)⟩

/-- Marks without parentheses are not rewritten. -/
theorem append (joins : s.Joins (ms ++ ns))
    (others : ∀ m ∈ ms, m.char? ≠ some '(' ∧ m.char? ≠ some ')') :
    (s.behindEach (ms.map piece)).Joins ns ∧
      semicolons s (ms ++ ns) = ms ++ semicolons (s.behindEach (ms.map piece)) ns := by
  induction ms generalizing s with
  | nil => exact ⟨joins, rfl⟩
  | cons m ms ih =>
    obtain ⟨noOpening, noClosing⟩ := others m List.mem_cons_self
    rw [List.cons_append] at joins
    obtain ⟨joinsBehind, first⟩ := joins.cons noOpening noClosing
    obtain ⟨joinsRest, rest⟩ := ih joinsBehind fun n met => others n (List.mem_cons_of_mem _ met)
    refine ⟨joinsRest, ?_⟩
    rw [List.cons_append, first, rest]
    rfl

/-- Balanced marks in parentheses are rewritten inside them, and what follows is rewritten as if
nothing had been opened. -/
theorem parentheses {opening closing : Mark} {inside tail : List Mark}
    (joins : s.Joins (opening :: (inside ++ closing :: tail)))
    (isOpening : opening.piece = .char '(') (isClosing : closing.piece = .char ')')
    (enclosed : Enclosed 0 inside) (balanced : openAfter 0 inside = 0) :
    ∃ r : Scope, r.Joins tail ∧ (Text.cutBeforeName r.front).2 = [] ∧
      semicolons s (opening :: (inside ++ closing :: tail)) =
        opening :: (semicolons (s.behind (.char '(')) inside ++ closing :: semicolons r tail) := by
  have opened : ((s.behind (.char '(')).behindEach (inside.map piece)).opened =
      s.opensCall :: s.opened :=
    opened_behindEach (List.nil_append _).symm enclosed balanced
  have closed : (((s.behind (.char '(')).behindEach (inside.map piece)).behind
      (.char ')')).opened = s.opened :=
    (opened_behind_closing rfl).trans (congrArg List.tail opened)
  have noName : Text.isNameChar ')' = false := by decide +kernel
  refine ⟨((s.behind (.char '(')).behindEach (inside.map piece)).behind (.char ')'),
    fun isInside => ?_, Text.name_concat_other noName _, ?_⟩
  · rw [inCall_of_opened closed] at isInside
    have undivided := joins isInside
    have depth : openAfter 1 inside = 1 := by rw [(enclosed.add 1).2, balanced]
    rw [undivided_cons, undivided_append, undivided_cons, depthAfter_opening (char?_char isOpening),
      depth, depthAfter_closing (char?_char isClosing)] at undivided
    exact undivided.2.2.2
  · have openingSame : s.rewrite opening.piece = opening.piece :=
      rewrite_other (by rw [isOpening]; decide)
    rw [semicolons_cons_same openingSame, semicolons_append, isOpening,
      semicolons_cons_same (rewrite_other (by rw [isClosing]; decide)), isClosing]

end Scope.Joins

end SheetFormula
