import SheetFormula.Proofs.Format.Matches

/-!
# The steps of padding, gap by gap

What each step of padding makes of the gaps between solid pieces. Operators get spaces
(`regapped_addPadding`), longer gaps shrink to one space (`regapped_collapseBlanks`), and the gaps
of signed numbers and references go (`regapped_tightenSigns`, `Rule.Spelt.regapped`), as do those at
the ends (`regapped_trimEnds`).

## Main definitions

* `Rule.Solid` — rules that match from a solid piece on
* `Change.pads`, `Change.shrinks`, `Change.signs`, `Change.clears`, `Change.trims` — what the steps
  make of a gap
-/

namespace SheetFormula

open Piece

variable {p q : Piece} {ps qs rest gap gap' before after : List Piece}

/-! ## Replaced matches -/

/-- The rule matches from a solid piece on, and takes at least that. -/
structure Rule.Solid (rule : Rule) : Prop where
  nil : rule [] = none
  blank : ∀ {p ps}, p.isBlank = true → rule (p :: ps) = none
  shorter : ∀ {ps qs rest}, rule ps = some (qs, rest) → rest.length < ps.length

section ReplaceAll

variable {rule : Rule}

theorem replaceAll_nil : replaceAll rule [] = [] := by
  rw [replaceAll]

theorem replaceAll_none (none : rule (p :: ps) = none) :
    replaceAll rule (p :: ps) = p :: replaceAll rule ps := by
  rw [replaceAll]
  split
  · next found => rw [none] at found; cases found
  · rfl

theorem Rule.Solid.replaceAll_some (solid : rule.Solid) (found : rule ps = some (qs, rest)) :
    replaceAll rule ps = qs ++ replaceAll rule rest := by
  have shorter := solid.shorter found
  cases ps with
  | nil => cases shorter
  | cons p ps =>
    rw [replaceAll]
    split
    · next found' =>
      obtain ⟨rfl, rfl⟩ := Prod.mk.inj (Option.some.inj (found.symm.trans found'))
      rw [if_pos (Nat.lt_succ_iff.1 shorter)]
    · next none => rw [found] at none; cases none

/-- No match begins in a gap. -/
theorem Rule.Solid.replaceAll_gap (solid : rule.Solid) (blanks : Blanks gap) :
    replaceAll rule (gap ++ ps) = gap ++ replaceAll rule ps := by
  induction gap with
  | nil => rfl
  | cons b gap ih =>
    obtain ⟨first, others⟩ := blanks_cons.1 blanks
    rw [List.cons_append, replaceAll_none (solid.blank first), ih others, List.cons_append]

theorem Rule.Solid.replaceAll_blanks (solid : rule.Solid) (blanks : Blanks gap) :
    replaceAll rule gap = gap := by
  have whole : replaceAll rule (gap ++ []) = gap ++ replaceAll rule [] :=
    solid.replaceAll_gap blanks
  rwa [replaceAll_nil, List.append_nil] at whole

/-- What is shown of a gap at the end, of a gap in front of a piece where nothing matches, and of a
gap in front of a match, holds of all pieces. -/
theorem Rule.Solid.induction (solid : rule.Solid) {motive : List Piece → Prop}
    (last : ∀ gap, Blanks gap → motive gap)
    (next : ∀ gap p ps, Blanks gap → p.isBlank = false → rule (p :: ps) = none → motive ps →
      motive (gap ++ p :: ps))
    (found : ∀ gap ps qs rest, Blanks gap → rule ps = some (qs, rest) → motive rest →
      motive (gap ++ ps)) (ps : List Piece) : motive ps := by
  induction length : ps.length using Nat.strong_induction_on generalizing ps with
  | _ n ih =>
    obtain ⟨gap, blanks, whole⟩ := exists_gap ps
    rw [whole] at length ⊢
    have noBlank := head_skipBlanks ps
    generalize skipBlanks ps = behind at *
    rw [List.length_append] at length
    cases behind with
    | nil => exact (List.append_nil gap).symm ▸ last gap blanks
    | cons p behind =>
      cases isMatch : rule (p :: behind) with
      | none =>
        refine next gap p behind blanks (noBlank p rfl) isMatch (ih _ ?_ behind rfl)
        rw [List.length_cons] at length
        omega
      | some word =>
        refine found gap _ word.1 word.2 blanks isMatch (ih _ ?_ word.2 rfl)
        have := solid.shorter isMatch
        omega

end ReplaceAll

/-! ## Padding -/

/-- Characters of the operators that are padded. -/
def Piece.isOperator (p : Piece) : Bool :=
  p.satisfies fun c => ['<', '>', '=', '!', '+', '-', '*', '/', '&'].contains c

/-- An empty gap beside an operator may get spaces. -/
def Piece.Change.pads : Change := fun before gap gap' after =>
  gap' = gap ∨ gap = [] ∧ (∀ p ∈ gap', p = .char ' ') ∧
    ((∃ p ∈ before.head?, p.isOperator = true) ∨ ∃ p ∈ after.head?, p.isOperator = true)

theorem forbidsPadding_blank (blank : p.isBlank = true) : forbidsPadding (some p) = true := by
  cases p with
  | literal => cases blank
  | char c =>
    have isBlank : Text.isBlank c = true := blank
    show (Text.isBlank c || c == '<' || c == '>' || c == '=' || c == '!') = true
    rw [isBlank]
    rfl

/-- A padded operator stands at the start of the pieces, character by character. -/
theorem pieces_of_paddedOperator {op : Operator} (quoted : Quoted (p :: ps))
    (padded : paddedOperator? (p :: ps) = some op) :
    op.pieces ++ ps.drop (op.width - 1) = p :: ps := by
  rw [paddedOperator?, Option.filter_eq_some_iff] at padded
  have begins := List.find?_some padded.1
  rw [List.isPrefixOf_iff_prefix] at begins
  have whole : op.lexeme <+: textOf (p :: ps) := by
    refine begins.trans ?_
    conv => rhs; rw [← List.take_append_drop 2 (p :: ps)]
    rw [textOf_append]
    exact List.prefix_append _ _
  -- an operator holds no quote, so the pieces that spell it are its characters
  have noQuote : '"' ∉ op.lexeme := by cases op <;> decide
  have pieces := take_eq_of_prefix quoted noQuote whole
  obtain ⟨n, width⟩ : ∃ n, op.lexeme.length = n + 1 := by cases op <;> exact ⟨_, rfl⟩
  rw [Operator.pieces, ← pieces, Operator.width, width]
  exact List.take_append_drop (n + 1) (p :: ps)

theorem Operator.isBlank_of_mem {op : Operator} (met : p ∈ op.pieces) : p.isBlank = false := by
  obtain ⟨c, within, rfl⟩ := List.mem_map.1 met
  exact (Operator.lexeme_spelling within).2.2.1

theorem isOperator_of_padded {op : Operator} (padded : paddedOperator? ps = some op) :
    ∀ p ∈ op.pieces, p.isOperator = true := by
  rw [paddedOperator?, Option.filter_eq_some_iff] at padded
  have kept := padded.2
  refine List.all_eq_true.1 ?_
  cases op <;> first | rfl | cases kept

theorem exists_operator_cons (op : Operator) : ∃ p ps, op.pieces = p :: ps := by
  cases op <;> exact ⟨_, _, rfl⟩

theorem Piece.Change.pads_refl (before gap after : List Piece) : Change.pads before gap gap after :=
  .inl rfl

/-- An operator behind a gap. -/
theorem Piece.Regapped.operator {op : Operator} (isOperator : ∀ p ∈ op.pieces, p.isOperator = true)
    (blanks : Blanks gap) (blanks' : Blanks gap')
    (changed : ∀ after, (∃ p ∈ after.head?, p.isOperator = true) →
      Change.pads before gap gap' after)
    (behind : ∀ before, (∃ p ∈ before.head?, p.isOperator = true) →
      Regapped Change.pads before ps qs) :
    Regapped Change.pads before (gap ++ (op.pieces ++ ps)) (gap' ++ (op.pieces ++ qs)) := by
  have noBlank : ∀ p ∈ op.pieces, p.isBlank = false := fun _ => Operator.isBlank_of_mem
  obtain ⟨o, os, whole⟩ := exists_operator_cons op
  rw [whole] at isOperator noBlank ⊢
  refine .next blanks blanks' (noBlank o List.mem_cons_self)
    (changed _ ⟨o, rfl, isOperator o List.mem_cons_self⟩)
    (Regapped.solids (behind _ ?_) (List.forall_mem_cons.1 noBlank).2
      fun _ _ => Change.pads_refl _ _ _)
  have last : os.reverse ++ o :: before = (o :: os).reverse ++ before := by simp
  rw [last]
  obtain ⟨l, front, ends⟩ := List.exists_cons_of_ne_nil
    (List.reverse_ne_nil_iff.2 (List.cons_ne_nil o os))
  refine ⟨l, by rw [ends]; rfl, isOperator l (List.mem_reverse.1 (ends ▸ List.mem_cons_self))⟩

/-- Padding behind a gap that is not told of yet. Behind an operator that got its spaces, the gap
is a space, and no blank follows. -/
theorem regapped_addPadding_gap (neighbour : Option Piece) (run : Text) (quoted : Quoted ps)
    (before : List Piece) (blanks : Blanks gap) (blanks' : Blanks gap')
    (pending : gap' = gap ∧ (gap ≠ [] → forbidsPadding neighbour = true) ∨
      gap = [] ∧ (∀ p ∈ gap', p = .char ' ') ∧ (∃ p ∈ before.head?, p.isOperator = true) ∧
        forbidsPadding ps.head? = false) :
    Regapped Change.pads before (gap ++ ps) (gap' ++ addPadding neighbour run ps) := by
  have changed : ∀ after, Change.pads before gap gap' after := by
    intro after
    rcases pending with ⟨same, -⟩ | ⟨none, spaces, operator, -⟩
    · exact .inl same
    · exact .inr ⟨none, spaces, .inl operator⟩
  fun_induction addPadding neighbour run ps generalizing before gap gap' with
  | case1 =>
    rw [List.append_nil, List.append_nil]
    exact .last blanks blanks' (changed [])
  | case2 neighbour run p ps _ ih =>
    cases blank : p.isBlank with
    | true =>
      rcases pending with ⟨rfl, -⟩ | ⟨-, -, -, noBlank⟩
      · have lead : Blanks (gap' ++ [p]) :=
          blanks_append.2 ⟨blanks, blanks_cons.2 ⟨blank, blanks_nil⟩⟩
        have moved := ih quoted.tail before lead lead
          (.inl ⟨rfl, fun _ => forbidsPadding_blank blank⟩) fun _ => .inl rfl
        rwa [List.append_assoc, List.append_assoc] at moved
      · rw [List.head?_cons, forbidsPadding_blank blank] at noBlank
        cases noBlank
    | false =>
      exact .next blanks blanks' blank (changed _) (ih quoted.tail (p :: before) blanks_nil
        blanks_nil (.inl ⟨rfl, fun some => absurd rfl some⟩) fun _ => .inl rfl)
  | case3 neighbour run p ps op padded _ ih =>
    have behindQuoted := quoted.tail.of_subset (List.drop_subset (op.width - 1) ps)
    rw [← pieces_of_paddedOperator quoted padded]
    exact Regapped.operator (isOperator_of_padded padded) blanks blanks' (fun _ _ => changed _)
      fun before _ => ih behindQuoted before blanks_nil blanks_nil
        (.inl ⟨rfl, fun some => absurd rfl some⟩) fun _ => .inl rfl
  | case4 neighbour run p ps op padded allowed ih =>
    have behindQuoted := quoted.tail.of_subset (List.drop_subset (op.width - 1) ps)
    simp only [Bool.or_eq_true, not_or, Bool.not_eq_true] at allowed
    -- a blank in front would have kept the operator from being padded
    have none : gap = [] ∧ ∀ p ∈ gap', p = .char ' ' := by
      rcases pending with ⟨rfl, forbids⟩ | ⟨none, spaces, -⟩
      · have none : gap' = [] := by
          by_contra some
          rw [forbids some] at allowed
          cases allowed.1.1
        exact ⟨none, none ▸ fun _ met => absurd met List.not_mem_nil⟩
      · exact ⟨none, spaces⟩
    obtain ⟨rfl, spaces⟩ := none
    have spaces' : ∀ p ∈ gap' ++ [Piece.char ' '], p = .char ' ' :=
      List.forall_mem_append.2 ⟨spaces, fun _ => List.mem_singleton.1⟩
    have whole : Regapped Change.pads before
        ([] ++ (op.pieces ++ ([] ++ ps.drop (op.width - 1))))
        (gap' ++ [.char ' '] ++ (op.pieces ++ ([.char ' '] ++
          addPadding op.pieces.getLast? [] (ps.drop (op.width - 1))))) :=
      Regapped.operator (isOperator_of_padded padded) blanks
        (blanks_append.2 ⟨blanks', blanks_space⟩)
        (fun after operator => .inr ⟨rfl, spaces', .inr operator⟩) fun before operator =>
          ih behindQuoted before blanks_nil blanks_space
            (.inr ⟨rfl, fun _ => List.mem_singleton.1, operator, allowed.1.2⟩)
            fun _ => .inr ⟨rfl, fun _ => List.mem_singleton.1, .inl operator⟩
    rw [List.append_assoc] at whole
    rw [← pieces_of_paddedOperator quoted padded]
    exact whole

/-- Padding puts spaces beside operators, where no blank stands. -/
theorem regapped_addPadding (quoted : Quoted ps) :
    Regapped Change.pads [] ps (addPadding none [] ps) :=
  regapped_addPadding_gap none [] quoted [] blanks_nil blanks_nil
    (.inl ⟨rfl, fun some => absurd rfl some⟩)

/-! ## Shorter gaps -/

/-- A gap of one blank stays, and a longer one shrinks to a space. -/
def Piece.Change.shrinks : Change := fun _ gap gap' _ =>
  gap.length ≤ 1 ∧ gap' = gap ∨ 1 < gap.length ∧ gap' = [.char ' ']

theorem shrinks_collapseBlanks (blanks : Blanks gap) (before after : List Piece) :
    Change.shrinks before gap (collapseBlanks gap) after := by
  fun_induction collapseBlanks gap with
  | case1 => exact .inl ⟨by simp, rfl⟩
  | case2 => exact .inl ⟨by simp, rfl⟩
  | case3 p q gap _ ih =>
    have behind : Blanks (.char ' ' :: gap) :=
      blanks_cons.2 ⟨by decide, (blanks_cons.1 (blanks_cons.1 blanks).2).2⟩
    refine .inr ⟨by simp, ?_⟩
    rcases ih behind with ⟨short, same⟩ | ⟨-, same⟩
    · rw [List.length_cons] at short
      rw [same, List.length_eq_zero_iff.1 (by omega : gap.length = 0)]
    · exact same
  | case4 p q gap other =>
    obtain ⟨first, others⟩ := blanks_cons.1 blanks
    rw [first, (blanks_cons.1 others).1] at other
    exact absurd rfl other

theorem collapseBlanks_cons (noBlank : p.isBlank = false) :
    collapseBlanks (p :: ps) = p :: collapseBlanks ps := by
  cases ps with
  | nil => rw [collapseBlanks, collapseBlanks]
  | cons q ps => rw [collapseBlanks, if_neg (by simp [noBlank])]

theorem collapseBlanks_append (noBlank : p.isBlank = false) :
    collapseBlanks (gap ++ p :: ps) = collapseBlanks gap ++ p :: collapseBlanks ps := by
  fun_induction collapseBlanks gap with
  | case1 => exact collapseBlanks_cons noBlank
  | case2 b =>
    show collapseBlanks (b :: p :: ps) = _
    rw [collapseBlanks, if_neg (by simp [noBlank]), collapseBlanks_cons noBlank]
    rfl
  | case3 p q gap blanks ih =>
    rw [List.cons_append, List.cons_append, collapseBlanks, if_pos blanks]
    exact ih
  | case4 p q gap other ih =>
    rw [List.cons_append, List.cons_append, collapseBlanks, if_neg other]
    exact congrArg (p :: ·) ih

theorem blanks_collapseBlanks (blanks : Blanks gap) : Blanks (collapseBlanks gap) := by
  rcases shrinks_collapseBlanks blanks [] [] with ⟨-, same⟩ | ⟨-, same⟩
  · exact same.symm ▸ blanks
  · exact same.symm ▸ blanks_space

theorem regapped_collapseBlanks (before ps : List Piece) :
    Regapped Change.shrinks before ps (collapseBlanks ps) := by
  induction ps using gap_induction generalizing before with
  | last gap blanks =>
    exact .last blanks (blanks_collapseBlanks blanks) (shrinks_collapseBlanks blanks _ _)
  | next gap p ps blanks noBlank ih =>
    rw [collapseBlanks_append noBlank]
    exact .next blanks (blanks_collapseBlanks blanks) noBlank (shrinks_collapseBlanks blanks _ _)
      (ih _)

/-! ## References -/

/-- A gap between certain neighbours may go. -/
def Piece.Change.clears (edge : Piece → Piece → Prop) : Change := fun before gap gap' after =>
  gap' = gap ∨ gap' = [] ∧ ∃ p ∈ before.head?, ∃ q ∈ after.head?, edge p q

section Spelt

variable {rule : Rule} {close : Piece → Piece → Bool} {edge : Piece → Piece → Prop}
  {word : List Piece → Prop} {w : List Piece}

theorem Piece.Spells.length_lt (spells : Spells close w ps rest) : rest.length < ps.length := by
  induction spells with
  | last => exact Nat.lt_succ_self _
  | next _ _ _ _ ih =>
    rw [List.length_cons] at ih ⊢
    rw [List.length_append, List.length_cons]
    omega

theorem Rule.Spelt.solid (spelt : rule.Spelt close edge word) : rule.Solid where
  nil := by
    by_contra some
    obtain ⟨⟨qs, rest⟩, found⟩ := Option.ne_none_iff_exists'.1 some
    have shorter := (spelt.match_iff.1 found).2.1.length_lt
    cases shorter
  blank {p ps} blank := by
    by_contra some
    obtain ⟨⟨qs, rest⟩, found⟩ := Option.ne_none_iff_exists'.1 some
    have noBlank := (spelt.match_iff.1 found).2.1.head_isBlank p rfl
    rw [blank] at noBlank
    cases noBlank
  shorter found := (spelt.match_iff.1 found).2.1.length_lt

/-- A word takes the place of what spells it. -/
theorem Piece.Spells.regapped (spells : Spells close w ps rest)
    (chain : w.IsChain fun p q => close p q = true ∨ edge p q) (blanks : Blanks gap)
    (blanks' : Blanks gap') (changed : Change.clears edge before gap gap' (solid ps))
    (behind : ∀ before, Regapped (Change.clears edge) before rest qs) :
    Regapped (Change.clears edge) before (gap ++ ps) (gap' ++ (w ++ qs)) := by
  induction spells generalizing before gap gap' with
  | last noBlank =>
    rw [solid_cons_solid noBlank] at changed
    exact .next blanks blanks' noBlank changed (behind _)
  | @next p q w own ps rest noBlank ownBlanks tight spells ih =>
    obtain ⟨first, others⟩ := List.isChain_cons_cons.1 chain
    rw [solid_cons_solid noBlank] at changed
    refine .next blanks blanks' noBlank changed (ih others ownBlanks blanks_nil ?_ behind)
    rcases first with isClose | isEdge
    · exact .inl (tight isClose).symm
    · refine .inr ⟨rfl, p, rfl, q, ?_, isEdge⟩
      rw [solid_cons_solid (spells.isBlank q List.mem_cons_self)]
      rfl

/-- A rule that looks for words takes gaps inside words away, and nothing else. -/
theorem Rule.Spelt.regapped (spelt : rule.Spelt close edge word) (before ps : List Piece) :
    Regapped (Change.clears edge) before ps (replaceAll rule ps) := by
  revert before
  refine spelt.solid.induction (motive := fun ps => ∀ before,
    Regapped (Change.clears edge) before ps (replaceAll rule ps)) ?last ?next ?found ps
  case last =>
    intro gap blanks before
    rw [spelt.solid.replaceAll_blanks blanks]
    exact .last blanks blanks (.inl rfl)
  case next =>
    intro gap p ps blanks noBlank none ih before
    rw [spelt.solid.replaceAll_gap blanks, replaceAll_none none]
    exact .next blanks blanks noBlank (.inl rfl) (ih _)
  case found =>
    intro gap ps qs rest blanks found ih before
    obtain ⟨isWord, spells, -⟩ := spelt.match_iff.1 found
    rw [spelt.solid.replaceAll_gap blanks, spelt.solid.replaceAll_some found]
    exact spells.regapped (spelt.isChain isWord) blanks blanks (.inl rfl) ih

end Spelt

/-! ## Signs -/

/-- Where a minus would be a sign: at the start, and behind certain pieces. -/
def Piece.SignPlace (before : List Piece) : Prop :=
  ∀ p ∈ before.head?, p.beforeSign = true

/-- The gap between the sign of a number and its first digit. -/
def Piece.SignEdge (before after : List Piece) : Prop :=
  ∃ front d behind, before = .char '-' :: front ∧ SignPlace front ∧ after = d :: behind ∧
    d.satisfies Char.isDigit = true

/-- The gap in front of the sign of a number, at the start or behind a parenthesis. -/
def Piece.OpeningEdge (before after : List Piece) : Prop :=
  (∀ p ∈ before.head?, p = .char '(') ∧ ∃ d behind, after = .char '-' :: d :: behind ∧
    d.satisfies Char.isDigit = true

/-- The gap behind the sign of a number goes, and so may the one in front of it. -/
def Piece.Change.signs : Change := fun before gap gap' after =>
  SignEdge before after ∧ gap' = [] ∨
    ¬SignEdge before after ∧ (gap' = gap ∨ gap' = [] ∧ OpeningEdge before after)

/-- Neither does a sign stand in front of the pieces with a gap behind it, nor does the first of
them stand behind one. -/
structure Piece.Settled (before ps : List Piece) : Prop where
  sign : SignPlace before → signedNumber? ps = none
  digit : ∀ gap d behind, Blanks gap → ps = gap ++ d :: behind →
    SignEdge before (d :: solid behind) → gap = []

section Signs

variable {d : Piece}

theorem beforeSign_iff : p.beforeSign = true ↔
    ∃ c, p = .char c ∧ c ∈ ['-', '+', '*', '/', '=', '<', '>', '!', '&', ',', '('] := by
  cases p with
  | literal => simp [beforeSign, satisfies, char?]
  | char c => simp [beforeSign, satisfies, char?, precedesSign, or_assoc]

theorem beforeSign_of_digit (digit : d.satisfies Char.isDigit = true) : d.beforeSign = false := by
  by_contra before
  rw [Bool.not_eq_false] at before
  obtain ⟨c, rfl, met⟩ := beforeSign_iff.1 before
  revert digit
  simp only [List.mem_cons, List.not_mem_nil, or_false] at met
  rcases met with rfl | rfl | rfl | rfl | rfl | rfl | rfl | rfl | rfl | rfl | rfl <;> decide

theorem isBlank_of_beforeSign (before : p.beforeSign = true) : p.isBlank = false := by
  obtain ⟨c, rfl, met⟩ := beforeSign_iff.1 before
  simp only [List.mem_cons, List.not_mem_nil, or_false] at met
  rcases met with rfl | rfl | rfl | rfl | rfl | rfl | rfl | rfl | rfl | rfl | rfl <;> decide

theorem not_signEdge_of_minus : ¬SignEdge before (.char '-' :: after) := by
  rintro ⟨_, d, _, -, -, same, digit⟩
  obtain ⟨rfl, -⟩ := List.cons.inj same
  cases digit

theorem solid_signedOperand : Rule.Solid signedOperand? where
  nil := rfl
  blank {p ps} blank := by
    by_contra some
    obtain ⟨⟨qs, rest⟩, found⟩ := Option.ne_none_iff_exists'.1 some
    have noBlank := isBlank_of_beforeSign (signedOperand?_eq_some_iff.1 found).1
    rw [blank] at noBlank
    cases noBlank
  shorter {ps qs rest} found := by
    cases ps with
    | nil => cases found
    | cons p ps =>
      obtain ⟨-, gap, gap', d, -, -, -, -, rfl, -⟩ := signedOperand?_eq_some_iff.1 found
      simp
      omega

/-- The sign of a number and its first digit. -/
theorem Piece.Regapped.signed (blanks : Blanks gap) (blanks' : Blanks gap')
    {lead : List Piece} (leadBlanks : Blanks lead) (place : SignPlace before)
    (digit : d.satisfies Char.isDigit = true)
    (changed : lead = gap ∨ lead = [] ∧ ∀ p ∈ before.head?, p = .char '(')
    (behind : Regapped Change.signs (d :: .char '-' :: before) rest qs) :
    Regapped Change.signs before (gap ++ .char '-' :: (gap' ++ d :: rest))
      (lead ++ ([.char '-', d] ++ qs)) := by
  have noBlank := visible_digit digit
  have number : Regapped Change.signs (.char '-' :: before) (gap' ++ d :: rest) ([] ++ d :: qs) :=
    .next blanks' blanks_nil noBlank (.inl ⟨⟨_, d, _, rfl, place, rfl, digit⟩, rfl⟩) behind
  refine .next blanks leadBlanks rfl (.inr ⟨not_signEdge_of_minus, ?_⟩) number
  refine changed.imp_right fun ⟨gone, opening⟩ => ⟨gone, opening, d, solid rest, ?_, digit⟩
  rw [solid_gap blanks', solid_cons_solid noBlank]

theorem settled_of_digit (digit : d.satisfies Char.isDigit = true) :
    Settled (d :: before) ps where
  sign place := by
    have before := place d rfl
    rw [beforeSign_of_digit digit] at before
    cases before
  digit gap e behind _ _ edge := by
    obtain ⟨_, _, _, same, -⟩ := edge
    obtain ⟨rfl, -⟩ := List.cons.inj same
    cases digit

/-- Where no sign comes right behind it, a piece leaves what follows settled. -/
theorem Piece.Settled.tail (settled : Settled before (gap ++ p :: ps)) (blanks : Blanks gap)
    (none : signedOperand? (p :: ps) = none) : Settled (p :: before) ps where
  sign place := by
    by_contra some
    obtain ⟨⟨qs, rest⟩, found⟩ := Option.ne_none_iff_exists'.1 some
    obtain ⟨gap, gap', d, blanks, blanks', some', digit, rfl, rfl⟩ :=
      signedNumber?_eq_some_iff.1 found
    have isMatch : signedOperand? (p :: (gap ++ .char '-' :: (gap' ++ d :: rest))) =
        .some (_, rest) := signedOperand?_eq_some_iff.2
      ⟨place p rfl, gap, gap', d, blanks, blanks', some', digit, rfl, rfl⟩
    rw [none] at isMatch
    cases isMatch
  digit gap' d behind blanks' whole edge := by
    obtain ⟨_, _, _, same, place, same', digit⟩ := edge
    obtain ⟨rfl, rfl⟩ := List.cons.inj same
    obtain ⟨rfl, -⟩ := List.cons.inj same'
    by_contra some
    have isMatch : signedNumber? (gap ++ .char '-' :: (gap' ++ d :: behind)) =
        .some (_, behind) := signedNumber?_eq_some_iff.2
      ⟨gap, gap', d, blanks, blanks', some, digit, rfl, rfl⟩
    rw [← whole, settled.sign place] at isMatch
    cases isMatch

theorem regapped_signedOperand (settled : Settled before ps) :
    Regapped Change.signs before ps (replaceAll signedOperand? ps) := by
  revert before
  refine solid_signedOperand.induction (motive := fun ps => ∀ {before}, Settled before ps →
    Regapped Change.signs before ps (replaceAll signedOperand? ps)) ?last ?next ?found ps
  case last =>
    intro gap blanks before _
    rw [solid_signedOperand.replaceAll_blanks blanks]
    refine .last blanks blanks (.inr ⟨?_, .inl rfl⟩)
    rintro ⟨_, _, _, -, -, same, -⟩
    cases same
  case next =>
    intro gap p ps blanks noBlank none ih before settled
    rw [solid_signedOperand.replaceAll_gap blanks, replaceAll_none none]
    refine .next blanks blanks noBlank ?_ (ih (settled.tail blanks none))
    by_cases edge : SignEdge before (p :: solid ps)
    · exact .inl ⟨edge, settled.digit gap p ps blanks rfl edge⟩
    · exact .inr ⟨edge, .inl rfl⟩
  case found =>
    intro gap ps qs rest blanks found ih before settled
    rw [solid_signedOperand.replaceAll_gap blanks, solid_signedOperand.replaceAll_some found]
    cases ps with
    | nil => cases found
    | cons p ps =>
      obtain ⟨isBefore, lead, gap', d, blanks', leadBlanks, -, digit, rfl, rfl⟩ :=
        signedOperand?_eq_some_iff.1 found
      have noEdge : ¬SignEdge before (p :: solid (lead ++ .char '-' :: (gap' ++ d :: rest))) := by
        rintro ⟨_, _, _, -, -, same, digit⟩
        rw [← (List.cons.inj same).1] at digit
        rw [beforeSign_of_digit digit] at isBefore
        cases isBefore
      refine .next blanks blanks (isBlank_of_beforeSign isBefore) (.inr ⟨noEdge, .inl rfl⟩) ?_
      have place : SignPlace (p :: before) := by
        rintro _ ⟨⟩
        exact isBefore
      have behind : Regapped Change.signs (d :: .char '-' :: p :: before) rest _ :=
        ih (settled_of_digit digit)
      have word : Regapped Change.signs (p :: before) (lead ++ .char '-' :: (gap' ++ d :: rest))
          ((if p.satisfies precedesSign then lead else []) ++
            ([.char '-', d] ++ replaceAll signedOperand? rest)) := by
        cases precedes : p.satisfies precedesSign with
        | true => exact Regapped.signed blanks' leadBlanks blanks' place digit (.inl rfl) behind
        | false =>
          rw [Piece.beforeSign, precedes, Bool.false_or, satisfies_beq] at isBefore
          refine Regapped.signed blanks' leadBlanks blanks_nil place digit (.inr ⟨rfl, ?_⟩) behind
          rintro _ ⟨⟩
          exact isBefore
      rw [← List.append_assoc] at word
      exact word

theorem regapped_tightenSigns (ps : List Piece) :
    Regapped Change.signs [] ps (tightenSigns ps) := by
  have place : SignPlace [] := fun _ isFirst => by cases isFirst
  rw [tightenSigns]
  split
  · next replacement rest found =>
    obtain ⟨gap, gap', d, blanks, blanks', -, digit, rfl, rfl⟩ :=
      signedNumber?_eq_some_iff.1 found
    have whole : Regapped Change.signs [] (gap ++ .char '-' :: (gap' ++ d :: rest))
        ([] ++ ([.char '-', d] ++ replaceAll signedOperand? rest)) :=
      Regapped.signed blanks blanks' blanks_nil place digit
        (.inr ⟨rfl, fun _ isFirst => by cases isFirst⟩)
        (regapped_signedOperand (settled_of_digit digit))
    exact whole
  · next none =>
    refine regapped_signedOperand ⟨fun _ => none, ?_⟩
    rintro _ _ _ - - ⟨_, _, _, same, -⟩
    cases same

end Signs

/-! ## The ends -/

/-- The gaps at the ends go. -/
def Piece.Change.trims : Change := fun before gap gap' after =>
  (before = [] ∨ after = []) ∧ gap' = [] ∨ (before ≠ [] ∧ after ≠ []) ∧ gap' = gap

theorem regapped_dropEndWhile (some : before ≠ []) (ps : List Piece) :
    Regapped Change.trims before ps (dropEndWhile Piece.isBlank ps) := by
  induction ps using gap_induction generalizing before with
  | last gap blanks =>
    rw [dropEndWhile_eq_nil blanks]
    exact .last blanks blanks_nil (.inl ⟨.inr rfl, rfl⟩)
  | next gap p ps blanks noBlank ih =>
    rw [dropEndWhile_append_of_not noBlank]
    exact .next blanks blanks noBlank (.inr ⟨⟨some, List.cons_ne_nil _ _⟩, rfl⟩)
      (ih (List.cons_ne_nil _ _))

theorem regapped_trimEnds (ps : List Piece) :
    Regapped Change.trims [] ps (trimEnds Piece.isBlank ps) := by
  obtain ⟨gap, blanks, whole⟩ := exists_gap ps
  have noBlank : ∀ p ∈ (skipBlanks ps).head?, p.isBlank = false := head_skipBlanks ps
  rw [trimEnds, ← skipBlanks]
  conv => arg 3; rw [whole]
  cases h : skipBlanks ps with
  | nil =>
    rw [List.append_nil]
    exact .last blanks blanks_nil (.inl ⟨.inl rfl, rfl⟩)
  | cons p behind =>
    rw [h] at noBlank
    have whole : Regapped Change.trims [] (gap ++ p :: behind)
        ([] ++ p :: dropEndWhile Piece.isBlank behind) :=
      .next blanks blanks_nil (noBlank p rfl) (.inl ⟨.inl rfl, rfl⟩)
        (regapped_dropEndWhile (List.cons_ne_nil _ _) behind)
    rw [dropEndWhile_cons_of_not (noBlank p rfl)]
    exact whole

/-! ## Kept gaps -/

/-- A gap between certain neighbours neither comes nor goes. -/
def Piece.Change.keeps (pair : Piece → Piece → Prop) : Change := fun before gap gap' after =>
  ∀ p ∈ before.head?, ∀ q ∈ after.head?, pair p q → (gap' = [] ↔ gap = [])

/-- Neither an operator nor a mark of references. -/
structure Piece.Inert (p : Piece) : Prop where
  noOperator : p.isOperator = false
  noColon : p ≠ .char ':'
  noDollar : p ≠ .char '$'

theorem Piece.mem_of_isOperator (operator : p.isOperator = true) :
    ∃ c ∈ ['<', '>', '=', '!', '+', '-', '*', '/', '&'], p = .char c := by
  cases p with
  | literal => cases operator
  | char c => exact ⟨c, List.contains_iff_mem.1 operator, rfl⟩

/-- A class without operators has none among its pieces. -/
theorem Piece.noOperator_of_class {class' : Char → Bool}
    (none : ['<', '>', '=', '!', '+', '-', '*', '/', '&'].all fun c => !class' c)
    (met : p.satisfies class' = true) : p.isOperator = false := by
  by_contra operator
  rw [Bool.not_eq_false] at operator
  obtain ⟨c, isOperator, rfl⟩ := mem_of_isOperator operator
  have noMember := List.all_eq_true.1 none c isOperator
  have met : class' c = true := met
  rw [met] at noMember
  cases noMember

/-- A class without such marks has inert pieces only. -/
theorem Piece.inert_of_class {class' : Char → Bool}
    (none : ['<', '>', '=', '!', '+', '-', '*', '/', '&'].all fun c => !class' c)
    (noMarks : class' ':' = false ∧ class' '$' = false) (met : p.satisfies class' = true) :
    p.Inert := by
  refine ⟨noOperator_of_class none met, ?_, ?_⟩
  · rintro rfl
    have met : class' ':' = true := met
    rw [noMarks.1] at met
    cases met
  · rintro rfl
    have met : class' '$' = true := met
    rw [noMarks.2] at met
    cases met

theorem Piece.inert_letter (letter : p.satisfies Char.isAlpha = true) : p.Inert :=
  inert_of_class (by decide) (by decide) letter

theorem Piece.inert_digit (digit : p.satisfies Char.isDigit = true) : p.Inert :=
  inert_of_class (by decide) (by decide) digit

theorem Piece.inert_name (name : p.satisfies Text.isNameChar = true) : p.Inert :=
  inert_of_class (by decide +kernel) (by decide +kernel) name

/-- Two inert pieces. -/
def Piece.BothInert (p q : Piece) : Prop :=
  p.Inert ∧ q.Inert

section Keeps

variable {pair : Piece → Piece → Prop} {gap'' : List Piece}

theorem Piece.Change.keeps_of_eq (same : gap' = gap) : Change.keeps pair before gap gap' after :=
  fun _ _ _ _ _ => by rw [same]

theorem Piece.Change.keeps_trans (first : Change.keeps pair before gap gap' after)
    (second : Change.keeps pair before gap' gap'' after) :
    Change.keeps pair before gap gap'' after :=
  fun p isFirst q isNext isPair =>
    (second p isFirst q isNext isPair).trans (first p isFirst q isNext isPair)

theorem Piece.Change.keeps_of_pads
    (calm : ∀ p q, pair p q → p.isOperator = false ∧ q.isOperator = false)
    (changed : Change.pads before gap gap' after) : Change.keeps pair before gap gap' after := by
  rcases changed with same | ⟨-, -, operator⟩
  · exact keeps_of_eq same
  · intro p isFirst q isNext isPair
    obtain ⟨left, right⟩ := calm p q isPair
    rcases operator with ⟨r, isOperator, operator⟩ | ⟨r, isOperator, operator⟩
    · rw [Option.mem_unique isOperator isFirst, left] at operator
      cases operator
    · rw [Option.mem_unique isOperator isNext, right] at operator
      cases operator

theorem Piece.Change.keeps_of_shrinks (changed : Change.shrinks before gap gap' after) :
    Change.keeps pair before gap gap' after := by
  rcases changed with ⟨-, same⟩ | ⟨long, rfl⟩
  · exact keeps_of_eq same
  · refine fun _ _ _ _ _ => ⟨fun none => (List.cons_ne_nil _ _ none).elim, fun none => ?_⟩
    rw [none] at long
    cases long

theorem Piece.Change.keeps_of_signs
    (calm : ∀ p q, pair p q → p.isOperator = false ∧ q.isOperator = false)
    (changed : Change.signs before gap gap' after) : Change.keeps pair before gap gap' after := by
  rcases changed with ⟨edge, -⟩ | ⟨-, same | ⟨-, edge⟩⟩
  · intro p isFirst q _ isPair
    obtain ⟨_, _, _, rfl, -⟩ := edge
    cases isFirst
    cases (calm _ q isPair).1
  · exact keeps_of_eq same
  · intro p _ q isNext isPair
    obtain ⟨-, _, _, rfl, -⟩ := edge
    cases isNext
    cases (calm p _ isPair).2

theorem Piece.Change.keeps_of_clears {edge : Piece → Piece → Prop}
    (apart : ∀ p q, pair p q → ¬edge p q) (changed : Change.clears edge before gap gap' after) :
    Change.keeps pair before gap gap' after := by
  rcases changed with same | ⟨-, p, isFirst, q, isNext, isEdge⟩
  · exact keeps_of_eq same
  · intro p' isFirst' q' isNext' isPair
    rw [Option.mem_unique isFirst' isFirst, Option.mem_unique isNext' isNext] at isPair
    exact absurd isEdge (apart p q isPair)

theorem Piece.Change.keeps_of_trims (changed : Change.trims before gap gap' after) :
    Change.keeps pair before gap gap' after := by
  rcases changed with ⟨rfl | rfl, -⟩ | ⟨-, same⟩
  · exact fun _ isFirst => by cases isFirst
  · exact fun _ _ _ isNext => by cases isNext
  · exact keeps_of_eq same

theorem Piece.BothInert.noOperator (both : BothInert p q) :
    p.isOperator = false ∧ q.isOperator = false :=
  ⟨both.1.noOperator, both.2.noOperator⟩

theorem not_rangeEdge (both : BothInert p q) : ¬RangeEdge p q := by
  rintro ⟨colon | colon, -⟩
  · exact both.1.noColon colon
  · exact both.2.noColon colon

theorem not_rowEdge (both : BothInert p q) : ¬RowEdge p q := by
  rintro ⟨dollar | dollar, -⟩
  · exact both.1.noDollar dollar
  · exact both.2.noDollar dollar

theorem Piece.WordParts.noOperator (parts : WordParts p q) :
    p.isOperator = false ∧ q.isOperator = false :=
  ⟨noOperator_of_class (by decide) parts.1, noOperator_of_class (by decide) parts.2⟩

end Keeps

end SheetFormula
