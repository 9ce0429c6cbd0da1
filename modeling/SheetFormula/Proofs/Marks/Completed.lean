import SheetFormula.Proofs.Marks.Placed
import SheetFormula.Proofs.Text.Characters

/-!
# Completed marks

Marks that lack the `)` of some parentheses can be completed at their end, behind some layout.
Inside the parenthesis that was left open, and in its last argument, the marks are completed as
well (`Completes.parentheses`, `argumentParts_completed`), and everything else stays as it is.

## Main definitions

* `Piece.leftOpen?` — the number of parentheses left open, if no `)` lacks its partner
* `Mark.Completes` — layout and the `)` that marks lack
-/

namespace SheetFormula

/-! ## Parentheses left open -/

namespace Piece

/-- The number of parentheses open behind the pieces, given that in front of them. None if a `)`
outside literals has no partner. -/
def leftOpen? (depth : Nat) : List Piece → Option Nat
  | [] => some depth
  | p :: ps =>
    if p = .char '(' then leftOpen? (depth + 1) ps
    else if p = .char ')' then if depth = 0 then none else leftOpen? (depth - 1) ps
    else leftOpen? depth ps

variable {depth : Nat} {p : Piece} {ps qs : List Piece}

theorem leftOpen?_other (noOpening : p ≠ .char '(') (noClosing : p ≠ .char ')') :
    leftOpen? depth (p :: ps) = leftOpen? depth ps := by
  rw [leftOpen?, if_neg noOpening, if_neg noClosing]

theorem leftOpen?_append (depth : Nat) (ps qs : List Piece) :
    leftOpen? depth (ps ++ qs) = (leftOpen? depth ps).bind fun left => leftOpen? left qs := by
  induction ps generalizing depth with
  | nil => rfl
  | cons p ps ih =>
    rw [List.cons_append, leftOpen?, leftOpen?]
    split
    · exact ih (depth + 1)
    · split
      · split
        · rfl
        · exact ih (depth - 1)
      · exact ih depth

/-- Characters other than parentheses open and close nothing. -/
theorem leftOpen?_chars {t : Text} (noOpening : '(' ∉ t) (noClosing : ')' ∉ t) :
    leftOpen? depth (t.map .char) = some depth := by
  induction t with
  | nil => rfl
  | cons c t ih =>
    rw [List.mem_cons, not_or] at noOpening noClosing
    rw [List.map_cons, leftOpen?_other (fun same => noOpening.1 (Piece.char.inj same).symm)
      fun same => noClosing.1 (Piece.char.inj same).symm]
    exact ih noOpening.2 noClosing.2

theorem leftOpen?_closers (depth : Nat) :
    leftOpen? depth ((List.replicate depth ')').map .char) = some 0 := by
  induction depth with
  | zero => rfl
  | succ depth ih => exact ih

end Piece

namespace Mark

variable {separator : Separator} {depth left : Nat} {m : Mark} {ms blanks closers : List Mark}

/-- What is left open among the pieces of marks is left open among the marks. -/
theorem leftOpen?_map_piece :
    Piece.leftOpen? depth (ms.map piece) = some left ↔
      Enclosed depth ms ∧ openAfter depth ms = left := by
  induction ms generalizing depth with
  | nil => simp [Piece.leftOpen?]
  | cons m ms ih =>
    rw [List.map_cons, Piece.leftOpen?, enclosed_cons, openAfter_cons]
    split
    · next isOpening =>
      have opened := char?_char isOpening
      rw [ih, depthAfter_opening opened, opened]
      simp
    · next noOpening =>
      split
      · next isClosing =>
        have closed := char?_char isClosing
        rw [depthAfter_closing closed, closed]
        split
        · next none => simp [none]
        · next some => simp [ih, some]
      · next noClosing =>
        have notClosed : m.char? ≠ some ')' := fun closed => noClosing (piece_of_char? closed)
        rw [ih, depthAfter_other (fun opened => noOpening (piece_of_char? opened)) notClosed]
        simp [notClosed]

/-- Where something is left open, something opens. -/
theorem exists_opening (opens : depth < openAfter depth ms) : ∃ m ∈ ms, m.char? = some '(' := by
  induction ms generalizing depth with
  | nil => exact absurd opens (Nat.lt_irrefl depth)
  | cons m ms ih =>
    by_cases isOpening : m.char? = some '('
    · exact ⟨m, List.mem_cons_self, isOpening⟩
    · have notMore : m.depthAfter depth ≤ depth := by
        rw [depthAfter, if_neg isOpening]
        split
        · exact Nat.sub_le depth 1
        · exact Nat.le_refl depth
      obtain ⟨other, met, isOpening⟩ := ih (Nat.lt_of_le_of_lt notMore opens)
      exact ⟨other, List.mem_cons_of_mem _ met, isOpening⟩

theorem enclosed_closers (closing : ∀ m ∈ ms, m.char? = some ')') :
    Enclosed ms.length ms ∧ openAfter ms.length ms = 0 := by
  induction ms with
  | nil => exact ⟨rfl, rfl⟩
  | cons m ms ih =>
    obtain ⟨first, rest⟩ := List.forall_mem_cons.1 closing
    rw [enclosed_cons, openAfter_cons, depthAfter_closing first, List.length_cons,
      Nat.add_sub_cancel]
    exact ⟨⟨fun stray => absurd stray.1 (Nat.succ_ne_zero _), (ih rest).1⟩, (ih rest).2⟩

/-! ## Layout and closers at the end -/

/-- Layout, and then one `)` for each parenthesis that the marks leave open. -/
structure Completes (ms blanks closers : List Mark) : Prop where
  complete : AllComplete ms
  genuine : AllGenuine (blanks ++ closers)
  layout : ∀ m ∈ blanks, m.isLayout = true
  closing : ∀ m ∈ closers, m.char? = some ')'
  matched : openAfter 0 ms = closers.length

/-- Nothing completes balanced marks. -/
theorem completes_nil (complete : AllComplete ms) (balanced : openAfter 0 ms = 0) :
    Completes ms [] [] :=
  ⟨complete, fun _ met => absurd met List.not_mem_nil, fun _ met => absurd met List.not_mem_nil,
    fun _ met => absurd met List.not_mem_nil, balanced⟩

namespace Completes

variable (completes : Completes ms blanks closers)

include completes

/-- Completed marks are balanced. -/
theorem readable (genuine : AllGenuine ms) (enclosed : Enclosed 0 ms) :
    AllGenuine (ms ++ (blanks ++ closers)) ∧ Enclosed 0 (ms ++ (blanks ++ closers)) ∧
      openAfter 0 (ms ++ (blanks ++ closers)) = 0 := by
  obtain ⟨genuineBlanks, -⟩ := allGenuine_append.1 completes.genuine
  have middle : Enclosed closers.length blanks ∧ openAfter closers.length blanks = closers.length :=
    enclosed_layout genuineBlanks completes.layout
  obtain ⟨encloses, balances⟩ := enclosed_closers completes.closing
  rw [enclosed_append, enclosed_append, openAfter_append, openAfter_append, completes.matched,
    middle.2]
  exact ⟨allGenuine_append.2 ⟨genuine, completes.genuine⟩, ⟨enclosed, middle.1, encloses⟩, balances⟩

/-- What completes marks is no other character than `)` or layout. -/
theorem char?_ne {c : Char} (noBlank : Text.isBlank c = false)
    (noConnector : Text.isConnector c = false) (noClosing : c ≠ ')') :
    ∀ m ∈ blanks ++ closers, m.char? ≠ some c := by
  refine List.forall_mem_append.2 ⟨fun m met => ?_, fun m met => ?_⟩
  · exact (completes.genuine m (List.mem_append_left _ met)).char?_ne_of_layout
      (completes.layout m met) noBlank noConnector
  · rw [completes.closing m met]
    exact fun same => noClosing (Option.some.inj same).symm

theorem isUnclosed : ∀ m ∈ ms ++ (blanks ++ closers), m.isUnclosed = false := by
  refine List.forall_mem_append.2 ⟨fun m met => (completes.complete m met).closed,
    List.forall_mem_append.2 ⟨fun m met => ?_, fun m met => ?_⟩⟩
  · exact (completes.genuine m (List.mem_append_left _ met)).isUnclosed_of_layout
      (completes.layout m met)
  · rw [Mark.isUnclosed, piece_of_char? (completes.closing m met)]
    rfl

end Completes

/-- Behind marks without parentheses, what is left is completed alike. -/
theorem Completes.append_right {ns : List Mark} (completes : Completes (ns ++ ms) blanks closers)
    (others : ∀ m ∈ ns, m.char? ≠ some '(' ∧ m.char? ≠ some ')') :
    Completes ms blanks closers := by
  have matched := completes.matched
  rw [openAfter_append, (enclosed_other others).2] at matched
  exact ⟨completes.complete.of_subset (List.subset_append_right ns ms), completes.genuine,
    completes.layout, completes.closing, matched⟩

theorem Completes.tail (completes : Completes (m :: ms) blanks closers)
    (noOpening : m.char? ≠ some '(') (noClosing : m.char? ≠ some ')') :
    Completes ms blanks closers := by
  have whole : Completes ([m] ++ ms) blanks closers := completes
  exact whole.append_right (by simpa using ⟨noOpening, noClosing⟩)

/-- The marks inside a parenthesis are completed and so are those behind it; if it was left open,
the last `)` closes it. -/
theorem Completes.parentheses {opening : Mark} {inside tail : List Mark}
    (completes : Completes (opening :: (inside ++ tail)) blanks closers)
    (isOpening : opening.char? = some '(') (genuine : AllGenuine inside)
    (enclosed : Enclosed 0 inside) (genuineTail : AllGenuine tail.tail)
    (closes : Closes inside tail) :
    ∃ innerBlanks inner closing outerBlanks outer,
      Completes inside innerBlanks inner ∧ Completes tail.tail outerBlanks outer ∧
      opening :: (inside ++ tail) ++ (blanks ++ closers) =
        opening :: ((inside ++ (innerBlanks ++ inner)) ++
          closing :: (tail.tail ++ (outerBlanks ++ outer))) ∧
      Closes (inside ++ (innerBlanks ++ inner))
        (closing :: (tail.tail ++ (outerBlanks ++ outer))) := by
  have matched := completes.matched
  have inner := (enclosed.add 1).2
  have insideComplete : AllComplete inside :=
    completes.complete.of_subset fun m met => by simp [met]
  rw [openAfter_cons, depthAfter_opening isOpening, openAfter_append, inner] at matched
  cases closes with
  | never =>
    rw [openAfter_nil] at matched
    obtain ⟨front, closing, rfl⟩ : ∃ front closing, closers = front ++ [closing] := by
      rcases List.eq_nil_or_concat closers with rfl | ⟨front, closing, rfl⟩
      · exact absurd matched (Nat.succ_ne_zero _)
      · exact ⟨front, closing, List.concat_eq_append⟩
    rw [List.length_append, List.length_singleton, Nat.add_right_cancel_iff] at matched
    have genuineFront := completes.genuine
    rw [← List.append_assoc, allGenuine_append] at genuineFront
    have within : Completes inside blanks front :=
      ⟨insideComplete, genuineFront.1, completes.layout,
        fun m met => completes.closing m (List.mem_append_left _ met), matched⟩
    refine ⟨blanks, front, closing, [], [], within, completes_nil ?_ rfl, ?_, .behind ?_ ?_ rfl⟩
    · exact fun m met => absurd met List.not_mem_nil
    · simp
    · exact completes.closing closing (by simp)
    · exact (within.readable genuine enclosed).2.2
  | @behind closing tail isClosing balanced enclosedTail =>
    have tailComplete : AllComplete tail :=
      completes.complete.of_subset fun m met => by simp [met]
    rw [balanced, openAfter_cons, depthAfter_closing isClosing] at matched
    have behind : Completes tail blanks closers :=
      ⟨tailComplete, completes.genuine, completes.layout, completes.closing, matched⟩
    refine ⟨[], [], closing, blanks, closers, completes_nil insideComplete balanced, behind,
      by simp, .behind isClosing (by simpa using balanced) ?_⟩
    exact (behind.readable genuineTail enclosedTail).2.1

/-! ## Trimmed marks -/

theorem trimmed_append_layout {ns : List Mark} (layout : ∀ m ∈ ns, m.isLayout = true) :
    trimmed (ms ++ ns) = trimmed ms := by
  have same : trimEnds isLayout ([] ++ ms ++ ns) = trimEnds isLayout ms :=
    trimEnds_append (fun _ met => absurd met List.not_mem_nil) layout ms
  rw [trimmed, trimmed, ← same, List.nil_append]

/-- A `)` keeps the layout in front of it, so trimmed marks are completed behind it. -/
theorem Completes.trimmed (completes : Completes ms blanks closers) (genuine : AllGenuine ms)
    (enclosed : Enclosed 0 ms) (missing : closers ≠ []) :
    ∃ more, Completes (trimmed ms) more closers ∧
      Mark.trimmed (ms ++ (blanks ++ closers)) = Mark.trimmed ms ++ (more ++ closers) := by
  obtain ⟨lead, trail, whole, leading, trailing⟩ := trimEnds_split isLayout ms
  have core := completes.complete.trimmed_eq
  have matched : openAfter 0 (Mark.trimmed ms) = closers.length :=
    (enclosed.trimmed genuine).2.trans completes.matched
  have visible : Mark.trimmed ms ≠ [] := fun none => by
    rw [none, openAfter_nil, eq_comm, List.length_eq_zero_iff] at matched
    exact missing matched
  have trailGenuine : AllGenuine trail := genuine.of_subset fun m met => by
    rw [whole]
    exact List.mem_append_right _ met
  refine ⟨trail ++ blanks, ⟨?_, ?_, ?_, completes.closing, matched⟩, ?_⟩
  · exact completes.complete.of_subset completes.complete.trimmed_isInfix.subset
  · rw [List.append_assoc]
    exact allGenuine_append.2 ⟨trailGenuine, completes.genuine⟩
  · exact List.forall_mem_append.2 ⟨trailing, completes.layout⟩
  · have split : ms ++ (blanks ++ closers) =
        lead ++ (Mark.trimmed ms ++ (trail ++ blanks ++ closers)) ++ [] := by
      conv => lhs; rw [whole, ← core]
      simp
    rw [trimmed_eq completes.isUnclosed, split,
      trimEnds_append leading (fun _ met => absurd met List.not_mem_nil)]
    refine trimEnds_eq_self (fun m head => ?_) fun m last => ?_
    · rw [List.head?_append_of_ne_nil _ visible, core] at head
      exact head?_trimEnds head
    · -- the last mark is a closer
      have met : m ∈ closers := by
        rw [← List.append_assoc, List.getLast?_append_of_ne_nil _ missing] at last
        exact List.mem_of_getLast? last
      by_contra layout
      rw [Bool.not_eq_false] at layout
      exact (completes.genuine m (List.mem_append_right _ met)).char?_ne_of_layout layout
        (by decide) (by decide) (completes.closing m met)

/-! ## Completed arguments -/

/-- A separator ends a part in front of which nothing is left open. -/
theorem cutAtSeparators_append {part : List Mark} (undivided : Undivided separator depth part)
    (balanced : openAfter depth part = 0) (isSeparator : m.char? = some separator.char) :
    cutAtSeparators separator depth (part ++ m :: ms) =
      (part, (cutAtSeparators separator 0 ms).1 :: (cutAtSeparators separator 0 ms).2) := by
  induction part generalizing depth with
  | nil =>
    have none : depth = 0 := balanced
    rw [List.nil_append, cutAtSeparators, if_pos ⟨none, isSeparator⟩]
  | cons first part ih =>
    obtain ⟨joins, rest⟩ := undivided_cons.1 undivided
    rw [List.cons_append, cutAtSeparators, if_neg joins, ih rest balanced]
    rfl

/-- Marks are divided in one way only. -/
theorem Divides.cutAtSeparators_eq {parts : List (List Mark)}
    (divides : Divides separator depth ms parts) :
    (cutAtSeparators separator depth ms).1 :: (cutAtSeparators separator depth ms).2 = parts := by
  induction divides with
  | last _ undivided => rw [undivided.cutAtSeparators_eq]
  | next _ balanced undivided isSeparator _ ih =>
    rw [cutAtSeparators_append undivided balanced isSeparator, ih]

/-- Marks without separators, and with nothing to close in front, join the last part. -/
theorem Divides.append {parts : List (List Mark)} (divides : Divides separator depth ms parts)
    (atStart : depth = 0) {extra : List Mark} (enclosed : Enclosed (openAfter depth ms) extra)
    (undivided : Undivided separator (openAfter depth ms) extra) :
    ∃ front last, parts = front ++ [last] ∧ openAfter 0 last = openAfter depth ms ∧
      Divides separator depth (ms ++ extra) (front ++ [last ++ extra]) := by
  induction divides with
  | @last depth ms encloses single =>
    subst atStart
    exact ⟨[], ms, rfl, rfl, .last (enclosed_append.2 ⟨encloses, enclosed⟩)
      (undivided_append.2 ⟨single, undivided⟩)⟩
  | @next depth part mark ms parts encloses balanced single isSeparator rest ih =>
    rw [openAfter_append, balanced, openAfter_cons, depthAfter_separator isSeparator]
      at enclosed undivided ⊢
    obtain ⟨front, last, whole, same, further⟩ := ih rfl enclosed undivided
    refine ⟨part :: front, last, by rw [whole]; rfl, same, ?_⟩
    rw [List.append_assoc, List.cons_append]
    exact .next encloses balanced single isSeparator further

theorem undivided_other (others : ∀ m ∈ ms, m.char? ≠ some separator.char) :
    Undivided separator depth ms := by
  induction ms generalizing depth with
  | nil => rfl
  | cons m ms ih =>
    obtain ⟨first, rest⟩ := List.forall_mem_cons.1 others
    exact undivided_cons.2 ⟨fun separates => first separates.2, ih rest⟩

/-- Divided marks have just these arguments, unless all of them are layout. -/
theorem Divides.argumentParts_eq {parts : List (List Mark)} (divides : Divides separator 0 ms parts)
    (visible : ∃ m ∈ ms, m.isLayout = false) : argumentParts separator ms = parts := by
  have whole := divides.cutAtSeparators_eq
  unfold argumentParts
  split
  · next part cut =>
    have undivided : Undivided separator 0 ms := by rw [Undivided, cut]
    have same := undivided.cutAtSeparators_eq
    obtain rfl : part = ms := by
      rw [cut] at same
      exact (Prod.mk.inj same).1
    rw [cut] at whole
    rw [if_neg, whole]
    obtain ⟨m, met, noLayout⟩ := visible
    exact fun all => by rw [List.all_eq_true.1 all m met] at noLayout; cases noLayout
  · next part others _ cut =>
    rw [cut] at whole
    exact whole

/-- Layout alone is no argument. -/
theorem argumentParts_layout (genuine : AllGenuine ms) (layout : ∀ m ∈ ms, m.isLayout = true) :
    argumentParts separator ms = [] := by
  have undivided : Undivided separator 0 ms := undivided_other fun m met => by
    cases separator <;>
      exact (genuine m met).char?_ne_of_layout (layout m met) (by decide) (by decide)
  rw [argumentParts, undivided.cutAtSeparators_eq]
  exact if_pos (List.all_eq_true.2 layout)

/-- An argument, and what it becomes when its list is completed. -/
inductive Completed (blanks closers : List Mark) (part : List Mark) : List Mark → Prop where
  | same : Completed blanks closers part part
  | last (matched : openAfter 0 part = closers.length) :
      Completed blanks closers part (part ++ (blanks ++ closers))

/-- Only the last argument of a list is completed. -/
theorem argumentParts_completed (completes : Completes ms blanks closers)
    (genuine : AllGenuine ms) (enclosed : Enclosed 0 ms) :
    List.Forall₂ (Completed blanks closers) (argumentParts separator ms)
      (argumentParts separator (ms ++ (blanks ++ closers))) := by
  have noSeparator : ∀ m ∈ blanks ++ closers, m.char? ≠ some separator.char := by
    cases separator <;> exact completes.char?_ne (by decide) (by decide) (by decide)
  have readable := completes.readable genuine enclosed
  rw [enclosed_append] at readable
  rcases argumentParts_eq_nil_or_divides separator enclosed with ⟨none, layout⟩ | divides
  · have nothing : closers = [] := by
      rw [← List.length_eq_zero_iff, ← completes.matched]
      exact (enclosed_layout genuine layout).2
    have genuineBlanks := (allGenuine_append.1 completes.genuine).1
    have again : argumentParts separator (ms ++ blanks) = [] :=
      argumentParts_layout (allGenuine_append.2 ⟨genuine, genuineBlanks⟩)
        (List.forall_mem_append.2 ⟨layout, completes.layout⟩)
    rw [none, nothing, List.append_nil, again]
    exact .nil
  · obtain ⟨front, last, whole, same, further⟩ :=
      divides.append rfl readable.2.1.2 (undivided_other noSeparator)
    rw [completes.matched] at same
    have visible : ∃ m ∈ ms, m.isLayout = false := by
      by_contra none
      have layout : ∀ m ∈ ms, m.isLayout = true := by simpa using none
      rw [argumentParts_layout genuine layout] at whole
      exact absurd whole.symm (by simp)
    obtain ⟨m, met, noLayout⟩ := visible
    rw [whole, further.argumentParts_eq ⟨m, List.mem_append_left _ met, noLayout⟩]
    exact List.rel_append (List.forall₂_same.2 fun _ _ => .same) (.cons (.last same) .nil)

end Mark

end SheetFormula
