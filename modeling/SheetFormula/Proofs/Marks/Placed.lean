import SheetFormula.Proofs.Marks.Enclosed
import SheetFormula.Proofs.Text.Firm

/-!
# Marks at their places

Marks of a text know of themselves whether they are layout. Consecutive ones agree with each other
about it: all of them follow from whether the first one stands in an indentation (`Mark.Placed`).
So the text of consecutive marks has their essence (`essenceFrom_sourceText`), and the pending token
of a reader, in which layout connectors are blanks, goes together with the marks behind it
(`Mark.Continues`).

## Main definitions

* `Mark.Complete` — marks that are no unclosed literals
* `Mark.Placed` — consecutive marks of a text
* `Mark.Continues` — marks behind a pending token
-/

namespace SheetFormula

namespace Mark

/-- A character, or a closed literal with its own essence. -/
structure Complete (m : Mark) : Prop where
  closed : m.isUnclosed = false
  literal : ∀ text closed, m.piece = .literal text closed →
    text.Tidy ∧ text.essence = text ∧ text.getLast? = some '"'

/-- All marks of the list are complete. -/
def AllComplete (ms : List Mark) : Prop :=
  ∀ m ∈ ms, m.Complete

/-- The marks are layout where a text has layout that begins in an indentation or not. -/
def Placed (indented : Bool) : List Mark → Prop
  | [] => True
  | m :: ms => m.isLayout = m.piece.satisfies (Text.isLayout indented) ∧
      Placed (Text.indentedAfter indented m.piece.text) ms

variable {i : Bool} {c : Char} {pending text : Text} {m mark : Mark} {ms ns rest : List Mark}

theorem AllComplete.of_subset (complete : AllComplete ms) (subset : ns ⊆ ms) : AllComplete ns :=
  fun m met => complete m (subset met)

theorem AllComplete.tail (complete : AllComplete (m :: ms)) : AllComplete ms :=
  complete.of_subset (List.subset_cons_self m ms)

theorem complete_place {t : Text} (closed : t.LiteralsClosed) (position : Nat) (indented : Bool) :
    AllComplete (place position indented (pieces t)) := by
  unfold Text.LiteralsClosed at closed
  fun_induction pieces t generalizing position indented with
  | case1 => exact fun m met => absurd met List.not_mem_nil
  | case2 t ih =>
    intro m met
    rw [place, List.mem_cons] at met
    rcases met with rfl | met
    · have first := closed _ List.mem_cons_self
      have ends : (Text.literalTail t).closed = true := by simpa [Piece.isUnclosed] using first
      refine ⟨first, fun text _ isLiteral => ?_⟩
      obtain rfl := (Piece.literal.inj isLiteral).1
      refine ⟨(Text.tidy_literal ends).1, (Text.tidy_literal ends).2, ?_⟩
      rw [List.getLast?_cons, Text.getLast?_literalTail ends]
      rfl
    · exact ih (fun p within => closed p (List.mem_cons_of_mem _ within)) _ _ m met
  | case3 c t noQuote ih =>
    intro m met
    rw [place, List.mem_cons] at met
    rcases met with rfl | met
    · exact ⟨rfl, fun text _ isLiteral => by cases isLiteral⟩
    · exact ih (fun p within => closed p (List.mem_cons_of_mem _ within)) _ _ m met

theorem placed_place (position : Nat) (indented : Bool) (ps : List Piece) :
    Placed indented (place position indented ps) := by
  induction ps generalizing position indented with
  | nil => trivial
  | cons p ps ih => exact ⟨rfl, ih _ _⟩

@[simp] theorem sourceText_nil : sourceText [] = [] := rfl

@[simp] theorem sourceText_cons : sourceText (m :: ms) = m.piece.text ++ sourceText ms := by
  rw [sourceText, List.map_cons, textOf, List.flatMap_cons]
  rfl

@[simp] theorem sourceText_append : sourceText (ms ++ ns) = sourceText ms ++ sourceText ns := by
  rw [sourceText, List.map_append, textOf_append]
  rfl

theorem placed_append :
    Placed i (ms ++ ns) ↔ Placed i ms ∧ Placed (Text.indentedAfter i (sourceText ms)) ns := by
  induction ms generalizing i with
  | nil => exact (true_and _).symm.to_iff
  | cons m ms ih =>
    rw [List.cons_append, Placed, Placed, ih, and_assoc, sourceText_cons, Text.indentedAfter_append]

theorem Placed.of_isInfix (placed : Placed i ms) (within : ns <:+: ms) : ∃ j, Placed j ns := by
  obtain ⟨front, behind, rfl⟩ := within
  exact ⟨_, (placed_append.1 (placed_append.1 placed).1).2⟩

theorem trimUnclosed_of_closed (closed : m.isUnclosed = false) : m.trimUnclosed = m := by
  unfold trimUnclosed
  split
  · next isLiteral =>
    rw [isUnclosed, isLiteral] at closed
    cases closed
  · rfl

/-- Without unclosed literals, trimming takes layout only. -/
theorem trimmed_eq (closed : ∀ m ∈ ms, m.isUnclosed = false) :
    trimmed ms = trimEnds isLayout ms := by
  obtain ⟨lead, trail, whole, -, -⟩ := trimEnds_split isLayout ms
  have kept : ∀ m ∈ trimEnds isLayout ms, m.trimUnclosed = m := fun m met =>
    trimUnclosed_of_closed (closed m (by rw [whole]; simp [met]))
  rw [trimmed, List.map_congr_left kept]
  exact List.map_id _

theorem trimmed_isInfix (closed : ∀ m ∈ ms, m.isUnclosed = false) : trimmed ms <:+: ms := by
  obtain ⟨lead, trail, whole, -, -⟩ := trimEnds_split isLayout ms
  exact ⟨lead, trail, by rw [trimmed_eq closed, ← whole]⟩

/-- Trimming takes no separator in. -/
theorem Undivided.trimmed {separator : Separator} (undivided : Undivided separator 0 ms)
    (genuine : AllGenuine ms) (closed : ∀ m ∈ ms, m.isUnclosed = false) :
    Undivided separator 0 (trimmed ms) := by
  obtain ⟨lead, trail, whole, leading, -⟩ := trimEnds_split isLayout ms
  have leadGenuine : AllGenuine lead :=
    genuine.of_subset fun m met => by rw [whole]; simp [met]
  rw [trimmed_eq closed]
  rw [whole, undivided_append, undivided_append,
    (enclosed_layout leadGenuine leading).2] at undivided
  exact undivided.1.2

theorem AllComplete.trimmed_eq (complete : AllComplete ms) :
    trimmed ms = trimEnds isLayout ms :=
  Mark.trimmed_eq fun m met => (complete m met).closed

theorem AllComplete.trimmed_isInfix (complete : AllComplete ms) : trimmed ms <:+: ms :=
  Mark.trimmed_isInfix fun m met => (complete m met).closed

/-! ## The essence of consecutive marks -/

theorem indentedAfter_literal (quote : text.getLast? = some '"') :
    Text.indentedAfter i text = false := by
  obtain ⟨init, rfl⟩ := List.getLast?_eq_some_iff.1 quote
  rw [Text.indentedAfter_append]
  exact Text.staysIndented_eq_false (c := '"') (by decide) fun _ => by decide

theorem essence_of_layout (genuine : m.Genuine) (layout : m.isLayout = true) : m.essence = [] := by
  obtain ⟨c, isChar, -⟩ := genuine.of_layout layout
  rw [Mark.essence, isChar]
  exact if_pos layout

/-- The text of a mark has the essence of the mark where it stands. -/
theorem Complete.essenceFrom_text (complete : m.Complete) (genuine : m.Genuine)
    (placed : m.isLayout = m.piece.satisfies (Text.isLayout i)) :
    Text.essenceFrom false i m.piece.text = m.essence ∧
      Text.quotedAfter false m.piece.text = false := by
  cases isPiece : m.piece with
  | literal text closed =>
    obtain ⟨tidy, same, -⟩ := complete.literal text closed isPiece
    rw [Piece.text, tidy.noConnector.essenceFrom_eq i false, ← Text.essence_eq, same, Mark.essence,
      isPiece]
    exact ⟨rfl, tidy.closed⟩
  | char c =>
    have noQuote : c ≠ '"' := by
      rintro rfl
      exact genuine.ne_quote isPiece
    have layout : m.isLayout = Text.isLayout i c := by rw [placed, isPiece]; rfl
    rw [Piece.text, Mark.essence, isPiece]
    refine ⟨?_, Text.quotedBehind_other noQuote⟩
    simp only [Text.essenceFrom, Text.essentialAt, layout, List.append_nil]
    rfl

/-- The text of consecutive marks has their essence. -/
theorem essenceFrom_sourceText (genuine : AllGenuine ms) (complete : AllComplete ms)
    (placed : Placed i ms) :
    Text.essenceFrom false i (sourceText ms) = ms.flatMap Mark.essence ∧
      Text.quotedAfter false (sourceText ms) = false := by
  induction ms generalizing i with
  | nil => exact ⟨rfl, rfl⟩
  | cons m ms ih =>
    obtain ⟨first, side⟩ :=
      (complete m List.mem_cons_self).essenceFrom_text genuine.head placed.1
    obtain ⟨rest, outside⟩ := ih genuine.tail complete.tail placed.2
    rw [sourceText_cons, Text.essenceFrom_append, Text.quotedAfter_append, first, side, rest,
      List.flatMap_cons]
    exact ⟨rfl, outside⟩

/-- Trimming complete marks takes layout only. -/
theorem flatMap_essence_trimmed (genuine : AllGenuine ms) (complete : AllComplete ms) :
    (trimmed ms).flatMap Mark.essence = ms.flatMap Mark.essence := by
  obtain ⟨lead, trail, whole, leading, trailing⟩ := trimEnds_split isLayout ms
  have nothing : ∀ ns : List Mark, ns ⊆ ms → (∀ m ∈ ns, m.isLayout = true) →
      ns.flatMap Mark.essence = [] := by
    intro ns subset layout
    rw [List.flatMap_eq_nil_iff]
    exact fun m met => essence_of_layout (genuine m (subset met)) (layout m met)
  have leadWithin : lead ⊆ ms := fun m met => by rw [whole]; simp [met]
  have trailWithin : trail ⊆ ms := fun m met => by rw [whole]; simp [met]
  rw [complete.trimmed_eq]
  conv => rhs; rw [whole]
  rw [List.flatMap_append, List.flatMap_append, nothing lead leadWithin leading,
    nothing trail trailWithin trailing, List.nil_append, List.append_nil]

/-- The text of trimmed marks has by itself the essence that it has where it stands. -/
theorem essence_sourceText_trimmed (genuine : AllGenuine ms) (complete : AllComplete ms)
    (placed : Placed i ms) : (sourceText (trimmed ms)).essence = ms.flatMap Mark.essence := by
  obtain ⟨j, trimPlaced⟩ := placed.of_isInfix complete.trimmed_isInfix
  have trimComplete := complete.of_subset complete.trimmed_isInfix.subset
  have same := (essenceFrom_sourceText genuine.trimmed trimComplete trimPlaced).1
  have first : ∀ m, (trimmed ms).head? = some m → m.isLayout = false := by
    rw [complete.trimmed_eq]
    exact fun m => head?_trimEnds
  rw [← flatMap_essence_trimmed genuine complete, ← same, Text.essence_eq]
  have trimGenuine := genuine.trimmed
  generalize trimmed ms = core at trimGenuine trimPlaced first
  cases core with
  | nil => rfl
  | cons m core =>
    have noLayout := first m rfl
    rw [sourceText_cons]
    -- the first character is a quote or no layout, so it begins no indentation
    cases isPiece : m.piece with
    | literal text closed =>
      obtain ⟨rest, isText⟩ := List.head?_eq_some_iff.1
        (trimGenuine.head.quote_of_literal text closed isPiece)
      rw [Piece.text, isText]
      exact (Text.essenceFrom_cons (by decide) fun _ => by decide).symm
    | char c =>
      have outside : Text.isLayout j c = false := by
        have here := trimPlaced.1
        rw [noLayout, isPiece] at here
        exact here.symm
      rw [Text.isLayout, Bool.or_eq_false_iff, Bool.and_eq_false_iff] at outside
      exact (Text.essenceFrom_cons outside.1 fun indented => outside.2.resolve_left
        (by simp [indented])).symm

/-- The text of trimmed marks ends neither in a literal nor in an indentation. -/
theorem settled_sourceText_trimmed (genuine : AllGenuine ms) (complete : AllComplete ms)
    (placed : Placed i ms) : (sourceText (trimmed ms)).Settled := by
  obtain ⟨j, trimPlaced⟩ := placed.of_isInfix complete.trimmed_isInfix
  have trimComplete := complete.of_subset complete.trimmed_isInfix.subset
  have closed := (essenceFrom_sourceText genuine.trimmed trimComplete trimPlaced).2
  have last : ∀ m, (trimmed ms).getLast? = some m → m.isLayout = false := by
    rw [complete.trimmed_eq]
    exact fun m => getLast?_trimEnds
  generalize trimmed ms = core at trimPlaced trimComplete closed last
  rcases List.eq_nil_or_concat core with rfl | ⟨init, m, rfl⟩
  · exact Text.settled_nil
  · rw [List.concat_eq_append] at trimPlaced trimComplete closed last ⊢
    have noLayout := last m (by simp)
    have placedLast := (placed_append.1 trimPlaced).2.1
    rw [sourceText_append, sourceText_cons, sourceText_nil, List.append_nil] at closed ⊢
    cases isPiece : m.piece with
    | literal text isClosed =>
      rw [isPiece] at closed
      refine ⟨closed, ?_⟩
      rw [Text.indentedAfter_append]
      exact indentedAfter_literal ((trimComplete m (by simp)).literal text isClosed isPiece).2.2
    | char c =>
      rw [isPiece] at closed
      have outside : Text.isLayout (Text.indentedAfter j (sourceText init)) c = false := by
        rw [noLayout, isPiece] at placedLast
        exact placedLast.symm
      rw [Text.isLayout, Bool.or_eq_false_iff, Bool.and_eq_false_iff] at outside
      refine Text.settled_concat closed outside.1 ⟨fun _ indented => ?_, trivial⟩
      have further := Text.indentedAfter_mono (j := j) (fun none => Bool.noConfusion none) indented
      exact outside.2.resolve_left (by simp [further])

/-! ## Marks behind a pending token -/

/-- Consecutive marks behind a pending token, which ends in an indentation at most where they begin
in one. -/
structure Continues (pending : Text) (ms : List Mark) : Prop where
  genuine : AllGenuine ms
  complete : AllComplete ms
  firm : pending.Firm
  placed : ∃ i, (Text.indentedAfter false pending = true → i = true) ∧ Placed i ms

theorem Continues.fresh (continues : Continues pending ms) (within : ns <:+: ms) :
    Continues [] ns := by
  obtain ⟨i, -, placed⟩ := continues.placed
  obtain ⟨j, placed⟩ := placed.of_isInfix within
  exact ⟨continues.genuine.of_subset within.subset, continues.complete.of_subset within.subset,
    Text.firm_nil, j, fun indented => Bool.noConfusion indented, placed⟩

theorem Continues.trimmed (continues : Continues pending ms) : Continues [] (trimmed ms) :=
  continues.fresh continues.complete.trimmed_isInfix

/-- The text of trimmed marks behind a token is settled, and loses no essence. -/
theorem Continues.settled_sourceText (continues : Continues pending ms) :
    (sourceText (Mark.trimmed ms)).Settled := by
  obtain ⟨i, -, placed⟩ := continues.placed
  exact settled_sourceText_trimmed continues.genuine continues.complete placed

theorem Continues.essence_sourceText_trimmed (continues : Continues pending ms) :
    (sourceText (Mark.trimmed ms)).essence = ms.flatMap Mark.essence := by
  obtain ⟨i, -, placed⟩ := continues.placed
  exact Mark.essence_sourceText_trimmed continues.genuine continues.complete placed

/-- A literal joins the token. -/
theorem Continues.literal {closed : Bool} (continues : Continues pending (mark :: rest))
    (isLiteral : mark.piece = .literal text closed) :
    Continues (pending ++ text) rest ∧
      (pending ++ text).essence = pending.essence ++ mark.essence := by
  obtain ⟨i, -, placed⟩ := continues.placed
  obtain ⟨tidy, same, quote⟩ :=
    (continues.complete mark List.mem_cons_self).literal text closed isLiteral
  obtain ⟨firm, essence⟩ := continues.firm.append tidy.closed tidy.noConnector.steady
  have outside : Text.indentedAfter false (pending ++ text) = false := by
    rw [Text.indentedAfter_append, indentedAfter_literal quote]
  refine ⟨⟨continues.genuine.tail, continues.complete.tail, firm, _, ?_, placed.2⟩, ?_⟩
  · simp [outside]
  · rw [essence, tidy.noConnector.essenceFrom_eq _ false, ← Text.essence_eq, same, Mark.essence,
      isLiteral]

/-- A connector that is layout joins the token as a blank. -/
theorem Continues.connector (continues : Continues pending (mark :: rest))
    (isChar : mark.piece = .char c) (layout : mark.isLayout = true)
    (connector : Text.isConnector c = true) :
    Continues (pending ++ [' ']) rest ∧
      (pending ++ [' ']).essence = pending.essence ++ mark.essence := by
  obtain ⟨i, below, placed⟩ := continues.placed
  have blank : Text.Tidy [' '] ∧ Text.essence [' '] = [] := Text.tidy_blanks (by simp; decide)
  obtain ⟨firm, essence⟩ := continues.firm.append blank.1.closed blank.1.noConnector.steady
  -- the connector is no blank, so it is layout only in an indentation, and does not end it
  have noBlank : Text.isBlank c = false := by
    rw [← Bool.not_eq_true]
    intro isBlank
    rw [Text.isConnector_of_isBlank isBlank] at connector
    cases connector
  have indented : i = true := by
    have here := placed.1
    rw [layout, isChar] at here
    have here : Text.isLayout i c = true := here.symm
    simpa [Text.isLayout, noBlank, connector] using here
  have stays : Text.indentedAfter i mark.piece.text = true := by
    rw [isChar, indented]
    show Text.staysIndented true c = true
    simp [Text.staysIndented, connector]
  refine ⟨⟨continues.genuine.tail, continues.complete.tail, firm, _, fun _ => stays, placed.2⟩, ?_⟩
  rw [essence, blank.1.noConnector.essenceFrom_eq _ false, ← Text.essence_eq, blank.2,
    essence_of_layout continues.genuine.head layout]

/-- Any other character joins the token as it is. -/
theorem Continues.char (continues : Continues pending (mark :: rest))
    (isChar : mark.piece = .char c) (noConnector : ¬(mark.isLayout && Text.isConnector c) = true) :
    Continues (pending ++ [c]) rest ∧
      (pending ++ [c]).essence = pending.essence ++ mark.essence := by
  obtain ⟨i, below, placed⟩ := continues.placed
  have noQuote : c ≠ '"' := by
    rintro rfl
    exact continues.genuine.head.ne_quote isChar
  have layout : mark.isLayout = Text.isLayout i c := by rw [placed.1, isChar]; rfl
  -- in an indentation the mark is no connector, so the token may also begin outside of one
  have ordinary : i = true → Text.isConnector c = false := by
    intro indented
    rw [← Bool.not_eq_true]
    intro connector
    exact noConnector (by rw [layout, Text.isLayout, indented, connector]; simp)
  have steady : Text.Steady false i [c] := ⟨fun _ => ordinary, trivial⟩
  obtain ⟨tokenSteady, same⟩ := steady.mono below
  obtain ⟨firm, whole⟩ := continues.firm.append (t := [c]) (Text.quotedBehind_other noQuote)
    tokenSteady
  have essence : Text.essenceFrom false i [c] = mark.essence := by
    rw [Mark.essence, isChar, layout, Text.essenceFrom, Text.essenceFrom, List.append_nil]
    rfl
  refine ⟨⟨continues.genuine.tail, continues.complete.tail, firm, _, ?_, placed.2⟩, ?_⟩
  · rw [Text.indentedAfter_append, isChar]
    exact Text.indentedAfter_mono below
  · rw [whole, same, essence]

end Mark

end SheetFormula
