import SheetFormula.Formula.Bracket
import SheetFormula.Proofs.Marks.Genuine
import Mathlib.Data.List.Forall2

/-!
# Enclosed marks

Marks are enclosed if every `)` among them closes a parenthesis that they open, or one of a number
of outer ones. Enclosed marks are what the readers work on: the marks inside a parenthesis are
enclosed, so are those behind its `)` (`Closes.of_cut`), and so is every part of an argument list
(`divides_cutAtSeparators`).

## Main definitions

* `Mark.Enclosed`, `Mark.openAfter` — no `)` lacks its partner, and the parentheses left open
* `Mark.Alike` — marks that open and close alike
* `Mark.Closes` — what follows the marks inside a parenthesis
* `Mark.Undivided`, `Mark.Divides` — marks without a separator of their own, and marks as parts
  between separators
-/

namespace SheetFormula.Mark

/-- Every `)` among the marks closes a parenthesis that they open, or one of `depth` outer ones. -/
def Enclosed (depth : Nat) (ms : List Mark) : Prop :=
  (cutAtClose depth ms).2 = []

/-- The number of open parentheses behind marks, from that before them. -/
def openAfter (depth : Nat) (ms : List Mark) : Nat :=
  ms.foldl (fun d m => m.depthAfter d) depth

variable {depth : Nat} {m : Mark} {ms ns : List Mark}

@[simp] theorem openAfter_nil : openAfter depth [] = depth := rfl

@[simp] theorem openAfter_cons :
    openAfter depth (m :: ms) = openAfter (m.depthAfter depth) ms := rfl

@[simp] theorem openAfter_append :
    openAfter depth (ms ++ ns) = openAfter (openAfter depth ms) ns :=
  List.foldl_append

@[simp] theorem enclosed_nil : Enclosed depth [] := rfl

theorem enclosed_cons : Enclosed depth (m :: ms) ↔
    ¬(depth = 0 ∧ m.char? = some ')') ∧ Enclosed (m.depthAfter depth) ms := by
  rw [Enclosed, cutAtClose]
  split
  · next stray => simp [stray]
  · next met => simp [met, Enclosed]

theorem enclosed_append : Enclosed depth (ms ++ ns) ↔
    Enclosed depth ms ∧ Enclosed (openAfter depth ms) ns := by
  induction ms generalizing depth with
  | nil => simp
  | cons m ms ih => rw [List.cons_append, enclosed_cons, enclosed_cons, ih, and_assoc]; rfl

/-! ## The depth behind a mark -/

theorem depthAfter_opening (opening : m.char? = some '(') : m.depthAfter depth = depth + 1 := by
  rw [depthAfter, if_pos opening]

theorem depthAfter_closing (closing : m.char? = some ')') : m.depthAfter depth = depth - 1 := by
  rw [depthAfter, closing, if_neg (by decide), if_pos rfl]

theorem depthAfter_other (noOpening : m.char? ≠ some '(') (noClosing : m.char? ≠ some ')') :
    m.depthAfter depth = depth := by
  rw [depthAfter, if_neg noOpening, if_neg noClosing]

theorem depthAfter_separator {separator : Separator} (isSeparator : m.char? = some separator.char) :
    m.depthAfter depth = depth := by
  apply depthAfter_other <;> rw [isSeparator] <;> cases separator <;> decide

/-- Outer parentheses make no difference to a mark that closes none of them. -/
theorem depthAfter_add (outer : Nat) (enclosed : ¬(depth = 0 ∧ m.char? = some ')')) :
    m.depthAfter (depth + outer) = m.depthAfter depth + outer := by
  unfold depthAfter
  split
  · omega
  · split
    · next closing =>
      have : depth ≠ 0 := fun none => enclosed ⟨none, closing⟩
      omega
    · rfl

theorem Enclosed.add (outer : Nat) (enclosed : Enclosed depth ms) :
    Enclosed (depth + outer) ms ∧ openAfter (depth + outer) ms = openAfter depth ms + outer := by
  induction ms generalizing depth with
  | nil => exact ⟨rfl, rfl⟩
  | cons m ms ih =>
    obtain ⟨first, rest⟩ := enclosed_cons.1 enclosed
    obtain ⟨encloses, opens⟩ := ih rest
    rw [openAfter_cons, openAfter_cons, enclosed_cons, depthAfter_add outer first]
    exact ⟨⟨fun stray => first ⟨by omega, stray.2⟩, encloses⟩, opens⟩

/-- Marks without parentheses open and close nothing. -/
theorem enclosed_other (others : ∀ m ∈ ms, m.char? ≠ some '(' ∧ m.char? ≠ some ')') :
    Enclosed depth ms ∧ openAfter depth ms = depth := by
  induction ms with
  | nil => exact ⟨rfl, rfl⟩
  | cons m ms ih =>
    obtain ⟨noOpening, noClosing⟩ := others m List.mem_cons_self
    have rest := ih fun other met => others other (List.mem_cons_of_mem _ met)
    rw [enclosed_cons, openAfter_cons, depthAfter_other noOpening noClosing]
    exact ⟨⟨fun stray => noClosing stray.2, rest.1⟩, rest.2⟩

/-- Marks that open and close alike. -/
structure Alike (m n : Mark) : Prop where
  opening : m.char? = some '(' ↔ n.char? = some '('
  closing : m.char? = some ')' ↔ n.char? = some ')'

theorem Alike.depthAfter {n : Mark} (alike : Alike m n) :
    m.depthAfter depth = n.depthAfter depth := by
  rw [Mark.depthAfter, Mark.depthAfter]
  simp only [alike.opening, alike.closing]

/-- Whether marks are enclosed depends only on what each of them opens and closes. -/
theorem Alike.enclosed (alike : List.Forall₂ Alike ms ns) :
    (Enclosed depth ms ↔ Enclosed depth ns) ∧ openAfter depth ms = openAfter depth ns := by
  induction alike generalizing depth with
  | nil => exact ⟨Iff.rfl, rfl⟩
  | cons first _ ih =>
    rw [enclosed_cons, enclosed_cons, openAfter_cons, openAfter_cons, first.depthAfter,
      first.closing]
    exact ⟨and_congr_right' ih.1, ih.2⟩

theorem alike_map {f : Mark → Mark} (same : ∀ m, (f m).char? = m.char?) (ms : List Mark) :
    List.Forall₂ Alike (ms.map f) ms := by
  rw [List.forall₂_map_left_iff, List.forall₂_same]
  exact fun m _ => ⟨by rw [same], by rw [same]⟩

/-! ## Layout -/

/-- Layout opens and closes nothing. -/
theorem depthAfter_layout (genuine : m.Genuine) (layout : m.isLayout = true) :
    m.depthAfter depth = depth :=
  depthAfter_other (genuine.char?_ne_of_layout layout (by decide) (by decide))
    (genuine.char?_ne_of_layout layout (by decide) (by decide))

theorem enclosed_layout (genuine : AllGenuine ms) (layout : ∀ m ∈ ms, m.isLayout = true) :
    Enclosed depth ms ∧ openAfter depth ms = depth :=
  enclosed_other fun m met =>
    ⟨(genuine m met).char?_ne_of_layout (layout m met) (by decide) (by decide),
      (genuine m met).char?_ne_of_layout (layout m met) (by decide) (by decide)⟩

theorem enclosed_map_trimUnclosed : Enclosed depth (ms.map trimUnclosed) ↔ Enclosed depth ms :=
  (Alike.enclosed (alike_map char?_trimUnclosed ms)).1

theorem openAfter_map_trimUnclosed :
    openAfter depth (ms.map trimUnclosed) = openAfter depth ms :=
  (Alike.enclosed (alike_map char?_trimUnclosed ms)).2

/-- Trimming opens and closes nothing. -/
theorem Enclosed.trimmed (genuine : AllGenuine ms) (enclosed : Enclosed depth ms) :
    Enclosed depth (trimmed ms) ∧ openAfter depth (Mark.trimmed ms) = openAfter depth ms := by
  obtain ⟨lead, trail, whole, inLead, inTrail⟩ := trimEnds_split isLayout ms
  rw [Mark.trimmed, enclosed_map_trimUnclosed, openAfter_map_trimUnclosed]
  generalize trimEnds isLayout ms = core at whole
  subst whole
  obtain ⟨genuineFront, genuineTrail⟩ := allGenuine_append.1 genuine
  have leadOpens : openAfter depth lead = depth :=
    (enclosed_layout (allGenuine_append.1 genuineFront).1 inLead).2
  have trailOpens : openAfter (openAfter depth core) trail = openAfter depth core :=
    (enclosed_layout genuineTrail inTrail).2
  rw [List.append_assoc, enclosed_append, enclosed_append, leadOpens] at enclosed
  rw [openAfter_append, openAfter_append, leadOpens, trailOpens]
  exact ⟨enclosed.2.1, rfl⟩

/-! ## Cutting at a parenthesis -/

theorem Enclosed.cutAtClose_eq (enclosed : Enclosed depth ms) :
    cutAtClose depth ms = (ms, []) := by
  have whole := cutAtClose_whole depth ms
  rw [enclosed, List.append_nil] at whole
  exact Prod.ext whole enclosed

theorem fst_cutAtClose_subset (depth : Nat) (ms : List Mark) : (cutAtClose depth ms).1 ⊆ ms := by
  have front := List.subset_append_left (cutAtClose depth ms).1 (cutAtClose depth ms).2
  rwa [cutAtClose_whole] at front

theorem snd_cutAtClose_subset (depth : Nat) (ms : List Mark) : (cutAtClose depth ms).2 ⊆ ms := by
  have behind := List.subset_append_right (cutAtClose depth ms).1 (cutAtClose depth ms).2
  rwa [cutAtClose_whole] at behind

theorem enclosed_fst_cutAtClose (depth : Nat) (ms : List Mark) :
    Enclosed depth (cutAtClose depth ms).1 := by
  induction ms generalizing depth with
  | nil => rfl
  | cons m ms ih =>
    rw [cutAtClose]
    split
    · rfl
    · next met => exact enclosed_cons.2 ⟨met, ih _⟩

/-- Marks are cut at a `)` with no parenthesis left open in front of it. -/
theorem head_snd_cutAtClose {closing : Mark} {tail : List Mark}
    (cut : (cutAtClose depth ms).2 = closing :: tail) :
    closing.char? = some ')' ∧ openAfter depth (cutAtClose depth ms).1 = 0 := by
  induction ms generalizing depth with
  | nil => cases cut
  | cons m ms ih =>
    rw [cutAtClose] at cut ⊢
    split at cut
    · next stray =>
      cases cut
      rw [if_pos stray]
      exact ⟨stray.2, stray.1⟩
    · next met =>
      rw [if_neg met]
      exact ih cut

/-- Marks are cut behind an enclosed beginning that leaves no parenthesis open. -/
theorem cutAtClose_append {closing : Mark} (enclosed : Enclosed depth ms)
    (balanced : openAfter depth ms = 0) (isClosing : closing.char? = some ')') :
    cutAtClose depth (ms ++ closing :: ns) = (ms, closing :: ns) := by
  induction ms generalizing depth with
  | nil =>
    have : depth = 0 := balanced
    rw [List.nil_append, cutAtClose, if_pos ⟨this, isClosing⟩]
  | cons m ms ih =>
    obtain ⟨first, rest⟩ := enclosed_cons.1 enclosed
    rw [List.cons_append, cutAtClose, if_neg first, ih rest balanced]
    rfl

/-- Balanced marks in parentheses are balanced. -/
theorem enclosed_parentheses {opening closing : Mark} (isOpening : opening.char? = some '(')
    (isClosing : closing.char? = some ')') (enclosed : Enclosed 0 ms)
    (balanced : openAfter 0 ms = 0) :
    Enclosed 0 (opening :: (ms ++ [closing])) ∧ openAfter 0 (opening :: (ms ++ [closing])) = 0 := by
  obtain ⟨inner, depth⟩ := enclosed.add 1
  rw [balanced] at depth
  have noClosing : opening.char? ≠ some ')' := by rw [isOpening]; decide
  rw [enclosed_cons, enclosed_append, openAfter_cons, openAfter_append,
    depthAfter_opening isOpening, depth, enclosed_cons, openAfter_cons,
    depthAfter_closing isClosing]
  exact ⟨⟨fun stray => noClosing stray.2, inner, fun stray => absurd stray.1 (by decide), rfl⟩, rfl⟩

/-- What follows the marks inside a parenthesis: nothing, or the `)` that closes them and marks
that are enclosed again. -/
inductive Closes (inside : List Mark) : List Mark → Prop where
  | never : Closes inside []
  | behind {closing : Mark} {tail : List Mark} (isClosing : closing.char? = some ')')
      (balanced : openAfter 0 inside = 0) (enclosed : Enclosed 0 tail) :
      Closes inside (closing :: tail)

theorem Closes.of_cut {opening : Mark} (isOpening : opening.char? = some '(')
    (enclosed : Enclosed 0 (opening :: ms)) :
    Closes (cutAtClose 0 ms).1 (cutAtClose 0 ms).2 := by
  have behind := (enclosed_cons.1 enclosed).2
  rw [depthAfter_opening isOpening, ← cutAtClose_whole 0 ms, enclosed_append] at behind
  obtain ⟨-, balance⟩ := (enclosed_fst_cutAtClose 0 ms).add 1
  cases cut : (cutAtClose 0 ms).2 with
  | nil => exact .never
  | cons closing tail =>
    obtain ⟨isClosing, balanced⟩ := head_snd_cutAtClose cut
    -- the first mark behind the cut closes the parenthesis in front of it
    have rest := (enclosed_cons.1 (cut ▸ behind.2)).2
    rw [balance, balanced, depthAfter_closing isClosing] at rest
    exact .behind isClosing balanced rest

/-- The marks behind a closed or an unclosed parenthesis are enclosed. -/
theorem Closes.enclosed_tail {inside tail : List Mark} (closes : Closes inside tail) :
    Enclosed 0 tail.tail := by
  cases closes with
  | never => rfl
  | behind _ _ enclosed => exact enclosed

/-- The cut behind a parenthesis is the one that its marks show. -/
theorem Closes.cutAtClose_eq {inside tail : List Mark} (closes : Closes inside tail)
    (enclosed : Enclosed 0 inside) : cutAtClose 0 (inside ++ tail) = (inside, tail) := by
  cases closes with
  | never => rw [List.append_nil, enclosed.cutAtClose_eq]
  | behind isClosing balanced _ => exact cutAtClose_append enclosed balanced isClosing

/-! ## Cutting at separators -/

variable {separator : Separator}

/-- No separator outside nested parentheses, nor outside the `depth` outer ones. -/
def Undivided (separator : Separator) (depth : Nat) (ms : List Mark) : Prop :=
  (cutAtSeparators separator depth ms).2 = []

theorem undivided_cons : Undivided separator depth (m :: ms) ↔
    ¬(depth = 0 ∧ m.char? = some separator.char) ∧
      Undivided separator (m.depthAfter depth) ms := by
  rw [Undivided, cutAtSeparators]
  split
  · next separates => simp [separates]
  · next met => simp [met, Undivided]

theorem undivided_append : Undivided separator depth (ms ++ ns) ↔
    Undivided separator depth ms ∧ Undivided separator (openAfter depth ms) ns := by
  induction ms generalizing depth with
  | nil => exact ⟨fun rest => ⟨rfl, rest⟩, And.right⟩
  | cons m ms ih => rw [List.cons_append, undivided_cons, undivided_cons, ih, and_assoc]; rfl

/-- Marks as parts between separators. Only the last part may leave parentheses open. -/
inductive Divides (separator : Separator) : Nat → List Mark → List (List Mark) → Prop where
  | last {depth : Nat} {ms : List Mark} (enclosed : Enclosed depth ms)
      (undivided : Undivided separator depth ms) : Divides separator depth ms [ms]
  | next {depth : Nat} {part : List Mark} {mark : Mark} {ms : List Mark}
      {parts : List (List Mark)} (enclosed : Enclosed depth part)
      (balanced : openAfter depth part = 0) (undivided : Undivided separator depth part)
      (isSeparator : mark.char? = some separator.char) (rest : Divides separator 0 ms parts) :
      Divides separator depth (part ++ mark :: ms) (part :: parts)

/-- A mark in front joins the first part, unless it is a separator itself. -/
theorem Divides.cons {part : List Mark} {parts : List (List Mark)}
    (enclosed : ¬(depth = 0 ∧ m.char? = some ')'))
    (undivided : ¬(depth = 0 ∧ m.char? = some separator.char))
    (divides : Divides separator (m.depthAfter depth) ms (part :: parts)) :
    Divides separator depth (m :: ms) ((m :: part) :: parts) := by
  cases divides with
  | last encloses single =>
    exact .last (enclosed_cons.2 ⟨enclosed, encloses⟩) (undivided_cons.2 ⟨undivided, single⟩)
  | next encloses balanced single isSeparator rest =>
    exact .next (enclosed_cons.2 ⟨enclosed, encloses⟩) balanced
      (undivided_cons.2 ⟨undivided, single⟩) isSeparator rest

/-- Enclosed marks are cut into enclosed parts. -/
theorem divides_cutAtSeparators (enclosed : Enclosed depth ms) :
    Divides separator depth ms
      ((cutAtSeparators separator depth ms).1 :: (cutAtSeparators separator depth ms).2) := by
  induction ms generalizing depth with
  | nil => exact .last rfl rfl
  | cons m ms ih =>
    obtain ⟨first, rest⟩ := enclosed_cons.1 enclosed
    rw [cutAtSeparators]
    split
    · next separates =>
      rw [depthAfter_separator separates.2, separates.1] at rest
      have nothing : Enclosed 0 [] ∧ openAfter 0 [] = 0 ∧ Undivided separator 0 [] :=
        ⟨rfl, rfl, rfl⟩
      rw [separates.1]
      exact .next nothing.1 nothing.2.1 nothing.2.2 separates.2 (ih rest)
    · next joins => exact .cons first joins (ih rest)

theorem Undivided.cutAtSeparators_eq (undivided : Undivided separator depth ms) :
    cutAtSeparators separator depth ms = (ms, []) := by
  induction ms generalizing depth with
  | nil => rfl
  | cons m ms ih =>
    obtain ⟨joins, rest⟩ := undivided_cons.1 undivided
    rw [cutAtSeparators, if_neg joins, ih rest]
    rfl

/-- Every part is enclosed. -/
theorem Divides.enclosed {parts : List (List Mark)}
    (divides : Divides separator depth ms parts) : ∀ part ∈ parts, Enclosed depth part := by
  induction divides with
  | last enclosed => simpa using enclosed
  | @next depth _ _ _ _ enclosed _ _ _ _ ih =>
    intro part met
    rcases List.mem_cons.1 met with rfl | met
    · exact enclosed
    · exact Nat.zero_add depth ▸ ((ih part met).add depth).1

/-- No part has a separator of its own. -/
theorem Divides.undivided {parts : List (List Mark)} (divides : Divides separator depth ms parts)
    (atStart : depth = 0) : ∀ part ∈ parts, Undivided separator 0 part := by
  induction divides with
  | last _ undivided => simpa [← atStart] using undivided
  | next _ _ undivided _ _ ih => exact List.forall_mem_cons.2 ⟨atStart ▸ undivided, ih rfl⟩

/-- The parts of balanced marks are balanced. -/
theorem Divides.balanced {parts : List (List Mark)} (divides : Divides separator depth ms parts)
    (balanced : openAfter depth ms = 0) (atStart : depth = 0) :
    ∀ part ∈ parts, openAfter 0 part = 0 := by
  induction divides with
  | last => simpa [atStart] using balanced
  | @next depth front mark ms others _ frontBalanced _ isSeparator _ ih =>
    rw [openAfter_append, frontBalanced, openAfter_cons, depthAfter_separator isSeparator]
      at balanced
    rw [atStart] at frontBalanced
    exact List.forall_mem_cons.2 ⟨frontBalanced, ih balanced rfl⟩

/-- A part is a stretch of the whole. -/
theorem Divides.isInfix {parts : List (List Mark)} (divides : Divides separator depth ms parts) :
    ∀ part ∈ parts, part <:+: ms := by
  induction divides with
  | last => simp
  | @next depth front mark ms others _ _ _ _ _ ih =>
    intro part met
    rcases List.mem_cons.1 met with rfl | met
    · exact (List.prefix_append _ _).isInfix
    · exact (ih part met).trans ((List.suffix_cons _ _).trans (List.suffix_append _ _)).isInfix

/-- Layout alone is no argument. All other marks are divided into arguments. -/
theorem argumentParts_eq_nil_or_divides (separator : Separator) (enclosed : Enclosed 0 ms) :
    (argumentParts separator ms = [] ∧ ∀ m ∈ ms, m.isLayout = true) ∨
      Divides separator 0 ms (argumentParts separator ms) := by
  have divides : Divides separator 0 ms _ := divides_cutAtSeparators enclosed
  unfold argumentParts
  split
  · next part cut =>
    have undivided : Undivided separator 0 ms := by rw [Undivided, cut]
    have whole := undivided.cutAtSeparators_eq
    rw [cut] at divides whole
    obtain rfl : part = ms := (Prod.mk.inj whole).1
    split
    · next blank => exact .inl ⟨rfl, List.all_eq_true.1 blank⟩
    · exact .inr divides
  · next part others _ cut =>
    rw [cut] at divides
    exact .inr divides

theorem divides_of_mem_argumentParts (enclosed : Enclosed 0 ms) {part : List Mark}
    (isPart : part ∈ argumentParts separator ms) :
    Divides separator 0 ms (argumentParts separator ms) := by
  refine (argumentParts_eq_nil_or_divides separator enclosed).resolve_left fun none => ?_
  rw [none.1] at isPart
  cases isPart

theorem enclosed_of_mem_argumentParts (enclosed : Enclosed 0 ms) {part : List Mark}
    (isPart : part ∈ argumentParts separator ms) : Enclosed 0 part :=
  (divides_of_mem_argumentParts enclosed isPart).enclosed part isPart

theorem balanced_of_mem_argumentParts (enclosed : Enclosed 0 ms) (balanced : openAfter 0 ms = 0)
    {part : List Mark} (isPart : part ∈ argumentParts separator ms) : openAfter 0 part = 0 :=
  (divides_of_mem_argumentParts enclosed isPart).balanced balanced rfl part isPart

theorem undivided_of_mem_argumentParts (enclosed : Enclosed 0 ms) {part : List Mark}
    (isPart : part ∈ argumentParts separator ms) : Undivided separator 0 part :=
  (divides_of_mem_argumentParts enclosed isPart).undivided rfl part isPart

theorem isInfix_of_mem_argumentParts (enclosed : Enclosed 0 ms) {part : List Mark}
    (isPart : part ∈ argumentParts separator ms) : part <:+: ms :=
  (divides_of_mem_argumentParts enclosed isPart).isInfix part isPart

theorem subset_of_mem_argumentParts (enclosed : Enclosed 0 ms) {part : List Mark}
    (isPart : part ∈ argumentParts separator ms) : part ⊆ ms :=
  (isInfix_of_mem_argumentParts enclosed isPart).subset

end SheetFormula.Mark
