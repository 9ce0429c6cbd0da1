import SheetFormula.Proofs.Reading.Bodies
import SheetFormula.Proofs.Reading.Openings
import SheetFormula.Proofs.Text.Outside

/-!
# The shape of trees

The trees of formulas, whatever their faults, have the parts of a reading under the body, each leaf
of which is a token without parentheses, and behind them the text from an unmatched `)` on
(`Formula.rows_tree`).

## Main definitions

* `Text.IsToken` — the text of a leaf
* `Mark.Gathers` — a pending token and the marks behind it
* `Formula.Tail` — what an unmatched `)` leaves behind the parts
-/

namespace SheetFormula

/-- A text without blanks around it and without parentheses outside its literals. -/
structure Text.IsToken (t : Text) : Prop where
  trimmed : trim t = t
  noParenthesis : ∀ p ∈ pieces t, p.satisfies isParenthesis = false

open Expression

namespace Mark

/-! ## Parentheses outside literals -/

/-- A character, or a literal that has everything inside, and ends in its second quote unless it is
unclosed. -/
def Sealed (m : Mark) : Prop :=
  ∀ text closed, m.piece = .literal text closed →
    Text.Avoids Text.isParenthesis false text ∧ Text.quotedAfter false text = !closed ∧
      (closed = true → text.getLast? = some '"')

theorem sealed_place (t : Text) (position : Nat) (indented : Bool) :
    ∀ m ∈ place position indented (pieces t), m.Sealed := by
  fun_induction pieces t generalizing position indented with
  | case1 => exact fun m met => absurd met List.not_mem_nil
  | case2 t ih =>
    refine List.forall_mem_cons.2 ⟨?_, ih _ _⟩
    rintro text closed ⟨⟩
    refine ⟨⟨fun _ => by decide, Text.avoids_literalTail (by decide) t⟩,
      (Text.essenceFrom_literalTail t false).2, fun closed => ?_⟩
    rw [List.getLast?_cons, Text.getLast?_literalTail closed]
    rfl
  | case3 c t _ ih =>
    refine List.forall_mem_cons.2 ⟨?_, ih _ _⟩
    rintro text closed ⟨⟩

/-- Layout at its end makes no difference to an unclosed literal. -/
theorem Sealed.trimUnclosed {m : Mark} (isSealed : m.Sealed) : m.trimUnclosed.Sealed := by
  unfold Mark.trimUnclosed
  split
  · next text unclosed =>
    rintro other closed ⟨⟩
    obtain ⟨avoids, side, -⟩ := isSealed text false unclosed
    obtain ⟨trail, whole, layout, -⟩ := Text.trimLayoutEnd_split text
    have noQuote : ∀ c ∈ trail, c ≠ '"' := fun c met =>
      (layout c met).elim Text.ne_quote_of_isBlank Text.ne_quote_of_isConnector
    rw [whole, Text.avoids_append] at avoids
    rw [whole, Text.quotedAfter_append, Text.quotedAfter_eq noQuote] at side
    exact ⟨avoids.1, side, Bool.noConfusion⟩
  · exact isSealed

/-- A mark that is no layout ends in no blank. -/
theorem getLast?_trimUnclosed {m : Mark} (genuine : m.Genuine) (isSealed : m.Sealed)
    (noLayout : m.isLayout = false) :
    ∃ c, m.trimUnclosed.piece.text.getLast? = some c ∧ Text.isBlank c = false := by
  unfold Mark.trimUnclosed
  split
  · next text unclosed =>
    obtain ⟨-, -, -, noBlank⟩ := Text.trimLayoutEnd_split text
    have quote := head?_trimLayoutEnd (genuine.quote_of_literal text false unclosed)
    obtain ⟨rest, kept⟩ := List.head?_eq_some_iff.1 quote
    have last := List.getLast?_eq_some_getLast (kept ▸ List.cons_ne_nil '"' rest)
    exact ⟨_, last, noBlank _ last⟩
  · next closed =>
    cases isPiece : m.piece with
    | char c =>
      refine ⟨c, rfl, ?_⟩
      by_contra blank
      rw [genuine.layout_of_blank c isPiece (by simpa using blank)] at noLayout
      cases noLayout
    | literal text isClosed =>
      cases isClosed with
      | false => exact absurd isPiece (closed text)
      | true => exact ⟨'"', (isSealed text true isPiece).2.2 rfl, by decide⟩

/-- Trimmed marks end in no blank. -/
theorem getLast?_sourceText_trimmed {ms : List Mark} (genuine : AllGenuine ms)
    (isSealed : ∀ m ∈ ms, m.Sealed) {c : Char}
    (last : (sourceText (trimmed ms)).getLast? = some c) : Text.isBlank c = false := by
  obtain ⟨lead, trail, whole, -, -⟩ := trimEnds_split isLayout ms
  rw [trimmed] at last
  rcases List.eq_nil_or_concat (trimEnds isLayout ms) with none | ⟨front, m, core⟩
  · rw [none] at last
    cases last
  · rw [List.concat_eq_append] at core
    have noLayout : m.isLayout = false :=
      getLast?_trimEnds (by rw [core]; exact List.getLast?_concat)
    have within : m ∈ ms := by
      rw [whole, core]
      simp
    obtain ⟨d, isLast, noBlank⟩ :=
      getLast?_trimUnclosed (genuine m within) (isSealed m within) noLayout
    rw [core, List.map_append, List.map_singleton, sourceText_append, sourceText_cons,
      sourceText_nil, List.append_nil, List.getLast?_append, isLast] at last
    exact Option.some.inj last ▸ noBlank

/-- A pending token without parentheses outside its literals, and the marks behind it. Only at the
end of the marks may a literal be unclosed. -/
structure Gathers (pending : Text) (ms : List Mark) : Prop where
  avoids : pending.Avoids Text.isParenthesis false
  outside : ms ≠ [] → Text.quotedAfter false pending = false
  genuine : AllGenuine ms
  isSealed : ∀ m ∈ ms, m.Sealed
  closed : ms.Pairwise fun m _ => m.isUnclosed = false

variable {pending : Text} {mark : Mark} {ms ns rest : List Mark}

theorem Gathers.fresh (gathers : Gathers pending ms) (within : ns <:+: ms) : Gathers [] ns :=
  ⟨trivial, fun _ => rfl, gathers.genuine.of_subset within.subset,
    fun m met => gathers.isSealed m (within.subset met), gathers.closed.sublist within.sublist⟩

theorem Gathers.trimmed (gathers : Gathers pending ms) : Gathers [] (trimmed ms) := by
  obtain ⟨lead, trail, whole, -, -⟩ := trimEnds_split isLayout ms
  have core : Gathers [] (trimEnds isLayout ms) := gathers.fresh ⟨lead, trail, whole.symm⟩
  refine ⟨trivial, fun _ => rfl, gathers.genuine.trimmed, ?_, ?_⟩
  · rw [Mark.trimmed, List.forall_mem_map]
    exact fun m met => (core.isSealed m met).trimUnclosed
  · rw [Mark.trimmed, List.pairwise_map]
    simpa only [isUnclosed_trimUnclosed] using core.closed

/-- Behind a mark the next ones are gathered, if the token stays outside literals. -/
theorem Gathers.behind {token : Text} (gathers : Gathers pending (mark :: rest))
    (avoids : token.Avoids Text.isParenthesis false)
    (outside : rest ≠ [] → Text.quotedAfter false token = false) : Gathers token rest :=
  ⟨avoids, outside, gathers.genuine.tail,
    fun m met => gathers.isSealed m (List.mem_cons_of_mem _ met), gathers.closed.tail⟩

theorem Gathers.literal {text : Text} {closed : Bool} (gathers : Gathers pending (mark :: rest))
    (isLiteral : mark.piece = .literal text closed) : Gathers (pending ++ text) rest := by
  obtain ⟨avoids, side, -⟩ := gathers.isSealed mark List.mem_cons_self text closed isLiteral
  have outside := gathers.outside (List.cons_ne_nil mark rest)
  refine gathers.behind ?_ fun more => ?_
  · rw [Text.avoids_append, outside]
    exact ⟨gathers.avoids, avoids⟩
  · -- more marks follow only a closed literal
    obtain ⟨next, others, rfl⟩ := List.exists_cons_of_ne_nil more
    have ends := List.rel_of_pairwise_cons gathers.closed (List.mem_cons_self (a := next))
    rw [isUnclosed, isLiteral] at ends
    rw [Text.quotedAfter_append, outside, side]
    exact ends

theorem Gathers.char {c : Char} (gathers : Gathers pending (mark :: rest)) (noQuote : c ≠ '"')
    (noParenthesis : Text.isParenthesis c = false) : Gathers (pending ++ [c]) rest := by
  have outside := gathers.outside (List.cons_ne_nil mark rest)
  refine gathers.behind ?_ fun _ => ?_
  · rw [Text.avoids_append]
    exact ⟨gathers.avoids, fun _ => noParenthesis, trivial⟩
  · rw [Text.quotedAfter_append, outside]
    exact Text.quotedBehind_other noQuote

/-- Gathered tokens have no parentheses. -/
theorem rowInvariant_gathers : RowInvariant Gathers Text.IsToken where
  literal := Gathers.literal
  connector gathers _ _ _ := gathers.char (by decide) rfl
  char gathers isChar noParenthesis _ _ :=
    gathers.char (fun quote => gathers.genuine.head.ne_quote (quote ▸ isChar)) noParenthesis
  fresh := Gathers.fresh
  trimmed := Gathers.trimmed
  name {pending ms name} gathers _ := by
    have avoids := gathers.avoids
    rw [← dropEndWhile_append_takeEndWhile Text.isNameChar pending, Text.avoids_append] at avoids
    exact ⟨avoids.1, fun some => absurd rfl some, fun _ met => absurd met List.not_mem_nil,
      fun _ met => absurd met List.not_mem_nil, .nil⟩
  token {pending ms} gathers := ⟨trimEnds_trimEnds pending, gathers.avoids.trim.pieces⟩

theorem gathers_marks (t : Text) : Gathers [] (marks t) :=
  ⟨trivial, fun _ => rfl, allGenuine_marks t, sealed_place t 0 false,
    pairwise_closed_place t 0 false⟩

end Mark

namespace Formula

open Mark

/-- A text without blanks around it begins with something to read. -/
theorem exists_visible {t : Text} (trimmed : Text.trim t = t) (visible : t ≠ []) :
    ∃ m ∈ marks t, m.isLayout = false := by
  obtain ⟨c, rest, rfl⟩ := List.exists_cons_of_ne_nil visible
  have noBlank : Text.isBlank c = false := by
    have head : (Text.trim (c :: rest)).head? = some c := by rw [trimmed]; rfl
    exact head?_trimEnds head
  have noLayout : Text.isLayout false c = false := by
    rw [Text.isLayout, noBlank, Bool.false_and, Bool.false_or]
  rw [marks, pieces]
  split
  · exact ⟨_, List.mem_cons_self, rfl⟩
  · exact ⟨_, List.mem_cons_self, noLayout⟩

/-- What an unmatched `)` leaves behind the parts of a formula: its text from there on. -/
inductive Tail (f : Formula) : List Expression → Prop where
  | none (matched : ∀ position, .unmatchedCloseParenthesis position ∉ f.faults) : Tail f []
  | stray {position : Nat} {text : Text}
      (unmatched : .unmatchedCloseParenthesis position ∈ f.faults)
      (begins : text.head? = some ')') (trimmed : Text.trim text = text) : Tail f [.leaf text]

theorem mem_faults_scan (f : Formula) (fault : Fault) :
    fault ∈ f.faults ↔ fault ∈ scan [] (marks f.body) := by
  rw [mem_faults, mem_faults_transcript, marks, scan_place]

theorem tail_strayLeaf (f : Formula) : f.Tail (strayLeaf (cutAtClose 0 (marks f.body)).2) := by
  cases cut : (cutAtClose 0 (marks f.body)).2 with
  | nil =>
    refine .none fun position stray => ?_
    rw [mem_faults_scan, scan, List.length_nil, cut] at stray
    simp [faultsOf] at stray
  | cons stray tail =>
    have subset := snd_cutAtClose_subset 0 (marks f.body)
    rw [cut] at subset
    have genuine := (allGenuine_marks f.body).of_subset subset
    have begins : (sourceText (trimmed (stray :: tail))).head? = some ')' :=
      head?_trimmed genuine.head (head_snd_cutAtClose cut).1
    have unmatched : .unmatchedCloseParenthesis stray.position ∈ f.faults := by
      rw [mem_faults_scan, scan, List.length_nil, cut]
      exact List.mem_singleton_self _
    refine .stray unmatched begins (trimEnds_eq_self ?_ fun c last => ?_)
    · rintro c head
      rw [begins] at head
      exact Option.some.inj head ▸ by decide
    · exact getLast?_sourceText_trimmed genuine
        (fun m met => sealed_place f.body 0 false m (subset met)) last

/-- Up to an unmatched `)`, the parts of a formula stand in a row. -/
theorem row_parts (f : Formula) : Row Text.IsToken
    (read f.separator false [] (cutAtClose 0 (marks f.body)).1).value :=
  rowInvariant_gathers.row_read false [] (readable_fst_cutAtClose (allGenuine_marks f.body))
    ((gathers_marks f.body).fresh ⟨[], _, cutAtClose_whole 0 (marks f.body)⟩)

/-- Of a body without blanks around it, nothing is read only if it is empty. -/
theorem body_eq_nil_of_parts (f : Formula) (trimmed : Text.trim f.body = f.body)
    (nothing : (read f.separator false [] (cutAtClose 0 (marks f.body)).1).value ++
      strayLeaf (cutAtClose 0 (marks f.body)).2 = []) : f.body = [] := by
  have readable := readable_fst_cutAtClose (allGenuine_marks f.body)
  have whole := cutAtClose_whole 0 (marks f.body)
  obtain ⟨front, behind⟩ := List.append_eq_nil_iff.1 nothing
  by_contra visible
  obtain ⟨m, met, noLayout⟩ := exists_visible trimmed visible
  cases cut : (cutAtClose 0 (marks f.body)).2 with
  | nil =>
    rw [← whole, cut, List.append_nil] at met
    exact value_read_ne_nil false [] readable (.inr ⟨m, met, noLayout⟩) front
  | cons stray tail =>
    rw [cut] at behind
    cases behind

/-- What the readers keep from the beginning on holds of all parts of an accepted formula. They
stand in a row, and there are some unless it is empty. -/
theorem row_of_accepted {K : Text → List Mark → Prop} {P : Text → Prop} {t : Text}
    {tree : Expression} (invariant : RowInvariant K P) (accepted : (ofText t).tree? = .ok tree)
    (holds : (ofText t).body.LiteralsClosed → K [] (marks (ofText t).body)) : ∃ parts,
      tree = .plain (ofText t).body parts ∧ Row P parts ∧ (parts = [] → (ofText t).body = []) := by
  have trimmed := trim_body_ofText t
  generalize ofText t = f at accepted trimmed holds
  obtain ⟨rfl, closed, enclosed, -⟩ := f.paired_of_tree? accepted
  have row : Row P (read f.separator false [] (marks f.body)).value :=
    invariant.row_read false [] ⟨allGenuine_marks f.body, enclosed⟩ (holds closed)
  have visible := f.body_eq_nil_of_parts trimmed
  have parts := f.tree_parts
  rw [enclosed.cutAtClose_eq, strayLeaf, List.append_nil] at parts visible
  exact ⟨_, parts, row, visible⟩

/-- The tree of a formula: parts in a row under the body, and a tail if a `)` is unmatched. A
formula without parts is empty. -/
theorem rows_tree (t : Text) : ∃ parts tail,
    (ofText t).tree = .plain (ofText t).body (parts ++ tail) ∧
      Row Text.IsToken parts ∧ (ofText t).Tail tail ∧
      Text.trim (ofText t).body = (ofText t).body ∧
      (parts ++ tail ≠ [] ∨ (ofText t).body = []) := by
  have trimmed := trim_body_ofText t
  refine ⟨_, _, (ofText t).tree_parts, row_parts _, tail_strayLeaf _, trimmed, ?_⟩
  by_cases nothing : (read (ofText t).separator false []
      (cutAtClose 0 (marks (ofText t).body)).1).value ++
        strayLeaf (cutAtClose 0 (marks (ofText t).body)).2 = []
  · exact .inr ((ofText t).body_eq_nil_of_parts trimmed nothing)
  · exact .inl nothing

end Formula

end SheetFormula
