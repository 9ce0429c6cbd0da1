import SheetFormula.Proofs.Format.Idle

/-!
# Loose operators

An operator is loose where padding sets it apart (`Loose`, `addPadding_of_loose`). In pieces that
are padded already the loose operators are the lone signs, those of numbers at the start or behind a
parenthesis (`eq_nil_of_loose`): any other one was loose before (`exists_loose`), got its spaces,
and lost them only if there was nothing else.

## Main definitions

* `Piece.Loose` — an operator that padding sets apart
* `Piece.Snug` — the gaps of padded pieces
* `Piece.Closing`, `Piece.Change.closes` — where later steps take gaps away
* `Piece.LoneSign` — the signs that padding sets apart and puts together again
-/

namespace SheetFormula

open Piece

variable {p q : Piece} {ps qs rest gap gap' gap'' before after front behind : List Piece}
  {op : Operator} {neighbour : Option Piece} {run : Text}

/-! ## Loose operators are padded -/

/-- An operator behind some pieces that is one of those to be padded, and nothing keeps it from
that. Padding comes to the pieces from a neighbour, and a run of numeral characters. -/
structure Piece.Loose (neighbour : Option Piece) (run : Text) (front : List Piece) (op : Operator)
    (behind : List Piece) : Prop where
  padded : op ≠ .power ∧ op ≠ .range
  left : forbidsPadding (front.getLast?.or neighbour) = false
  right : forbidsPadding behind.head? = false
  noExponent : (op.isSign && Text.awaitsExponent (front.foldl runBehind run)) = false

theorem head?_textOf_of_right (quoted : Quoted behind)
    (right : forbidsPadding behind.head? = false) :
    ∀ c ∈ (textOf (behind.take 1)).head?, c ≠ '=' ∧ c ≠ '>' := by
  cases behind with
  | nil => exact fun _ isFirst => by cases isFirst
  | cons p behind =>
    have single : textOf [p] = p.text := List.flatMap_singleton _ _
    rw [List.take_succ_cons, List.take_zero, single]
    cases p with
    | literal text closed =>
      rw [Piece.text, quoted text closed List.mem_cons_self]
      rintro _ ⟨⟩
      decide
    | char c =>
      rintro _ ⟨⟩
      constructor <;> rintro rfl <;> cases right

theorem Piece.Loose.paddedOperator? (loose : Loose neighbour run front op behind)
    (quoted : Quoted behind) : paddedOperator? (op.pieces ++ behind) = some op := by
  have begins : Operator.atStart? (textOf ((op.pieces ++ behind).take 2)) = some op := by
    have short : op.pieces.length = op.width := List.length_map _
    have text : textOf op.pieces = op.lexeme := textOf_chars _
    rw [List.take_append, short, textOf_append]
    rcases Operator.width_eq op with width | width
    · rw [List.take_of_length_le (by omega), text, width]
      exact op.atStart?_lexeme fun _ => head?_textOf_of_right quoted loose.right
    · rw [List.take_of_length_le (by omega), text, width]
      exact op.atStart?_lexeme fun _ _ isFirst => by cases isFirst
  rw [SheetFormula.paddedOperator?, begins]
  obtain ⟨noPower, noRange⟩ := loose.padded
  simp [Option.filter, noPower, noRange]

theorem getLast?_or_cons (p : Piece) (ps : List Piece) (neighbour : Option Piece) :
    (p :: ps).getLast?.or neighbour = ps.getLast?.or (some p) := by
  rw [List.getLast?_cons]
  cases ps.getLast? <;> rfl

theorem getLast?_or_pieces (op : Operator) (neighbour : Option Piece) :
    op.pieces.getLast?.or neighbour = op.pieces.getLast? := by
  cases op <;> rfl

theorem foldl_runBehind_operator (op : Operator) (run : Text) :
    op.pieces.foldl runBehind run = [] := by
  cases op <;> rfl

/-- The first of two characters of an operator keeps others from being padded. -/
theorem forbidsPadding_of_two {op : Operator} (two : op.pieces = p :: q :: rest) :
    rest = [] ∧ forbidsPadding (some p) = true := by
  cases op <;> cases two <;> exact ⟨rfl, rfl⟩

/-- An operator in front of a loose one ends before it begins. -/
theorem Piece.Loose.exists_behind {op' : Operator} (loose : Loose neighbour run front op behind)
    (some : front ≠ []) (split : front ++ (op.pieces ++ behind) = op'.pieces ++ rest) :
    ∃ front', front = op'.pieces ++ front' ∧ rest = front' ++ (op.pieces ++ behind) := by
  rcases List.append_eq_append_iff.1 split with ⟨more, whole, later⟩ | ⟨more, whole, later⟩
  · cases more with
    | nil =>
      rw [List.append_nil] at whole
      exact ⟨[], by rw [whole, List.append_nil], later.symm⟩
    | cons q more =>
      obtain ⟨p, front, rfl⟩ := List.exists_cons_of_ne_nil some
      cases front with
      | nil =>
        have left : forbidsPadding (.some p) = false := loose.left
        rw [(forbidsPadding_of_two whole).2] at left
        cases left
      | cons r front =>
        have none := (forbidsPadding_of_two whole).1
        simp at none
  · exact ⟨more, whole, later⟩

/-- Behind a piece, the operator is as loose as before. -/
theorem Piece.Loose.behind_piece (loose : Loose neighbour run (p :: front) op behind) :
    Loose (some p) (runBehind run p) front op behind where
  padded := loose.padded
  left := getLast?_or_cons p front neighbour ▸ loose.left
  right := loose.right
  noExponent := loose.noExponent

/-- Behind another operator too. -/
theorem Piece.Loose.behind_operator {op' : Operator}
    (loose : Loose neighbour run (op'.pieces ++ front) op behind) :
    Loose op'.pieces.getLast? [] front op behind where
  padded := loose.padded
  left := by
    have left := loose.left
    rwa [List.getLast?_append, Option.or_assoc, getLast?_or_pieces] at left
  right := loose.right
  noExponent := by
    have noExponent := loose.noExponent
    rwa [List.foldl_append, foldl_runBehind_operator] at noExponent

/-- A loose operator gets its spaces. -/
theorem addPadding_of_loose (quoted : Quoted ps) (split : ps = front ++ (op.pieces ++ behind))
    (loose : Loose neighbour run front op behind) : ∃ front' behind',
      addPadding neighbour run ps = front' ++ .char ' ' :: (op.pieces ++ .char ' ' :: behind') ∧
        solid front' = solid front := by
  have quotedBehind : Quoted behind := quoted.of_subset (by simp [split])
  fun_induction addPadding neighbour run ps generalizing front with
  | case1 =>
    obtain ⟨o, os, whole⟩ := exists_operator_cons op
    simp [whole] at split
  | case2 neighbour run p ps none ih =>
    cases front with
    | nil =>
      rw [split, List.nil_append, loose.paddedOperator? quotedBehind] at none
      cases none
    | cons q front =>
      obtain ⟨rfl, rfl⟩ := List.cons.inj split
      obtain ⟨front', behind', whole, same⟩ := ih quoted.tail rfl loose.behind_piece
      refine ⟨p :: front', behind', by rw [whole]; rfl, ?_⟩
      rw [solid_cons, same, ← solid_cons]
  | case3 neighbour run p ps op' padded kept ih =>
    have begins := pieces_of_paddedOperator quoted padded
    have quotedRest := quoted.tail.of_subset (List.drop_subset (op'.width - 1) ps)
    by_cases none : front = []
    · subst none
      rw [split, List.nil_append, loose.paddedOperator? quotedBehind] at padded
      obtain rfl := Option.some.inj padded
      rw [split] at begins
      rw [List.append_cancel_left begins] at kept
      have left : forbidsPadding neighbour = false := loose.left
      have noExponent : (op.isSign && Text.awaitsExponent run) = false := loose.noExponent
      rw [left, loose.right, noExponent] at kept
      cases kept
    · obtain ⟨front, rfl, rest⟩ := loose.exists_behind none (split.symm.trans begins.symm)
      obtain ⟨front', behind', whole, same⟩ := ih quotedRest rest loose.behind_operator
      refine ⟨op'.pieces ++ front', behind', by rw [whole]; simp, ?_⟩
      rw [solid_append, solid_append, same]
  | case4 neighbour run p ps op' padded allowed ih =>
    have begins := pieces_of_paddedOperator quoted padded
    have quotedRest := quoted.tail.of_subset (List.drop_subset (op'.width - 1) ps)
    by_cases none : front = []
    · subst none
      rw [split, List.nil_append, loose.paddedOperator? quotedBehind] at padded
      obtain rfl := Option.some.inj padded
      exact ⟨[], _, rfl, rfl⟩
    · obtain ⟨front, rfl, rest⟩ := loose.exists_behind none (split.symm.trans begins.symm)
      obtain ⟨front', behind', whole, same⟩ := ih quotedRest rest loose.behind_operator
      refine ⟨.char ' ' :: (op'.pieces ++ .char ' ' :: front'), behind', by rw [whole]; simp, ?_⟩
      have blank : (Piece.char ' ').isBlank = true := rfl
      rw [solid_cons_blank blank, solid_append, solid_append, solid_cons_blank blank, same]

/-! ## Runs of numeral characters -/

/-- Two characters of numerals. -/
def Piece.BothNumerals (p q : Piece) : Prop :=
  p.satisfies Text.isNumeralChar = true ∧ q.satisfies Text.isNumeralChar = true

theorem runBehind_of_not (other : p.satisfies Text.isNumeralChar = false) :
    runBehind run p = [] := by
  cases p with
  | literal => rfl
  | char c =>
    have noNumeral : Text.isNumeralChar c = false := other
    rw [runBehind, noNumeral]
    rfl

theorem foldl_runBehind_blanks (blanks : Blanks gap) (ends : gap ≠ [] ∨ run = []) :
    gap.foldl runBehind run = [] := by
  induction gap generalizing run with
  | nil => exact ends.resolve_left fun some => some rfl
  | cons b gap ih =>
    obtain ⟨blank, others⟩ := blanks_cons.1 blanks
    have noNumeral : b.satisfies Text.isNumeralChar = false :=
      (visible_of_blanks fun _ => Text.isBlank_induction
        (P := fun c => Text.isNumeralChar c = false) (by decide)).of_blank blank
    exact ih others (.inr (runBehind_of_not noNumeral))

/-- The run in front of a piece is the same where gaps between numeral characters are kept. -/
theorem Piece.Regapped.foldl_runBehind (run : Text)
    (regapped : Regapped (Change.keeps BothNumerals) before ps (front ++ p :: behind))
    (noBlank : p.isBlank = false)
    (fresh : (∀ q ∈ before.head?, q.satisfies Text.isNumeralChar = false) → run = []) :
    ∃ front' behind', ps = front' ++ p :: behind' ∧ solid front' = solid front ∧
      (takeEndWhile Piece.isBlank front' = [] → takeEndWhile Piece.isBlank front = [] →
        front'.foldl runBehind run = front.foldl runBehind run) := by
  induction front using gap_induction generalizing before ps run with
  | last gap' blanks' =>
    obtain ⟨gap, rest, rfl, blanks, -, -⟩ := regapped.to_gap blanks' noBlank
    refine ⟨gap, rest, rfl, by rw [solid_blanks blanks, solid_blanks blanks'], ?_⟩
    rw [takeEndWhile_eq_self blanks, takeEndWhile_eq_self blanks']
    rintro rfl rfl
    rfl
  | next gap' r front blanks' noBlank' ih =>
    rw [List.append_assoc, List.cons_append] at regapped
    obtain ⟨gap, rest, rfl, blanks, kept, later⟩ := regapped.to_gap blanks' noBlank'
    have same : runBehind (gap.foldl runBehind run) r = runBehind (gap'.foldl runBehind run) r := by
      by_cases numeral : r.satisfies Text.isNumeralChar = true
      · have ends : run = [] ∨ (gap' = [] ↔ gap = []) := by
          by_contra differ
          rw [not_or] at differ
          refine differ.1 (fresh fun q isFirst => ?_)
          by_contra numeral'
          rw [Bool.not_eq_false] at numeral'
          exact differ.2 (kept q isFirst r rfl ⟨numeral', numeral⟩)
        by_cases none : gap = [] ∧ gap' = []
        · rw [none.1, none.2]
        · rw [foldl_runBehind_blanks blanks (by tauto), foldl_runBehind_blanks blanks' (by tauto)]
      · rw [Bool.not_eq_true] at numeral
        rw [runBehind_of_not numeral, runBehind_of_not numeral]
    have fresh' : (∀ q ∈ (r :: before).head?, q.satisfies Text.isNumeralChar = false) →
        runBehind (gap'.foldl runBehind run) r = [] :=
      fun other => runBehind_of_not (other r rfl)
    obtain ⟨front', behind', rfl, solids, runs⟩ := ih _ later fresh'
    refine ⟨gap ++ r :: front', behind', by simp, ?_, ?_⟩
    · rw [solid_gap blanks, solid_gap blanks', solid_cons_solid noBlank', solids,
        solid_cons_solid noBlank']
    · rw [takeEndWhile_append_of_not noBlank', takeEndWhile_append_of_not noBlank',
        List.foldl_append, List.foldl_append, List.foldl_cons, List.foldl_cons, same]
      exact runs

/-! ## Gaps of padded pieces -/

/-- A gap that padding leaves: none at the ends and behind the sign of a number, and no more than
one blank anywhere. -/
structure Piece.Snug (before gap after : List Piece) : Prop where
  first : before = [] → gap = []
  last : after = [] → gap = []
  sign : SignEdge before after → gap = []
  short : gap.length ≤ 1

theorem gapped_spacedPieces (ps : List Piece) : Gapped Snug [] (spacedPieces ps) := by
  have all : ∀ qs, Gapped (fun _ _ _ => True) [] qs :=
    fun qs => Regapped.refl (fun _ _ _ => ⟨rfl, trivial⟩) [] qs
  have collapsed : Gapped (fun _ gap _ => gap.length ≤ 1) [] _ :=
    (all _).regapped (regapped_collapseBlanks [] (addPadding none [] ps)) <| by
      rintro _ _ _ _ - (⟨short, rfl⟩ | ⟨-, rfl⟩)
      · exact short
      · exact le_rfl
  have signed : Gapped (fun before gap after => gap.length ≤ 1 ∧ (SignEdge before after → gap = []))
      [] _ := collapsed.regapped (regapped_tightenSigns _) <| by
    rintro _ _ _ _ short (⟨-, rfl⟩ | ⟨noEdge, rfl | ⟨rfl, -⟩⟩)
    · exact ⟨Nat.zero_le 1, fun _ => rfl⟩
    · exact ⟨short, fun edge => absurd edge noEdge⟩
    · exact ⟨Nat.zero_le 1, fun _ => rfl⟩
  have cleared : ∀ {edge : Piece → Piece → Prop} (before gap gap' after : List Piece),
      gap.length ≤ 1 ∧ (SignEdge before after → gap = []) →
        Change.clears edge before gap gap' after →
          gap'.length ≤ 1 ∧ (SignEdge before after → gap' = []) := by
    rintro _ _ _ _ _ held (rfl | ⟨rfl, -⟩)
    · exact held
    · exact ⟨Nat.zero_le 1, fun _ => rfl⟩
  have absolute := ((signed.regapped (spelt_tightRange.regapped _ _) cleared).regapped
    (spelt_absoluteColumn.regapped _ _) cleared).regapped (spelt_absoluteRow.regapped _ _) cleared
  refine absolute.regapped (regapped_trimEnds _) ?_
  rintro _ _ _ _ ⟨short, sign⟩ (⟨-, rfl⟩ | ⟨⟨inside, inside'⟩, rfl⟩)
  · exact ⟨fun _ => rfl, fun _ => rfl, fun _ => rfl, Nat.zero_le 1⟩
  · exact ⟨fun none => absurd none inside, fun none => absurd none inside', sign, short⟩

/-- Where a gap may go: behind or in front of the sign of a number, in a range and at the ends. -/
def Piece.Closing (before after : List Piece) : Prop :=
  SignEdge before after ∨ OpeningEdge before after ∨
    (∃ p ∈ before.head?, ∃ q ∈ after.head?, RangeEdge p q) ∨ before = [] ∨ after = []

/-- A gap goes there only. -/
def Piece.Change.closes : Change := fun before gap gap' after =>
  gap' = [] → gap = [] ∨ Closing before after

theorem Piece.Change.closes_trans (first : Change.closes before gap gap' after)
    (second : Change.closes before gap' gap'' after) : Change.closes before gap gap'' after :=
  fun none => (second none).elim first .inr

theorem Piece.Change.closes_of_pads (changed : Change.pads before gap gap' after) :
    Change.closes before gap gap' after := by
  rcases changed with rfl | ⟨none, -⟩
  · exact .inl
  · exact fun _ => .inl none

theorem Piece.Change.closes_of_shrinks (changed : Change.shrinks before gap gap' after) :
    Change.closes before gap gap' after := by
  rcases changed with ⟨-, rfl⟩ | ⟨-, rfl⟩
  · exact .inl
  · exact fun none => by cases none

theorem Piece.Change.closes_of_signs (changed : Change.signs before gap gap' after) :
    Change.closes before gap gap' after := by
  rcases changed with ⟨edge, -⟩ | ⟨-, rfl | ⟨-, edge⟩⟩
  · exact fun _ => .inr (.inl edge)
  · exact .inl
  · exact fun _ => .inr (.inr (.inl edge))

theorem Piece.Change.closes_of_ranges (changed : Change.clears RangeEdge before gap gap' after) :
    Change.closes before gap gap' after := by
  rcases changed with rfl | ⟨-, edge⟩
  · exact .inl
  · exact fun _ => .inr (.inr (.inr (.inl edge)))

theorem Piece.Change.closes_of_trims (changed : Change.trims before gap gap' after) :
    Change.closes before gap gap' after := by
  rcases changed with ⟨ends, -⟩ | ⟨-, rfl⟩
  · exact fun _ => .inr (.inr (.inr (.inr ends)))
  · exact .inl

theorem regapped_closes (ps : List Piece) : Regapped Change.closes [] (addPadding none [] ps)
    (trimEnds Piece.isBlank (tightenedPieces ps)) := by
  have both : ∀ before gap gap' gap'' after, Change.closes before gap gap' after →
      Change.closes before gap' gap'' after → Change.closes before gap gap'' after :=
    fun _ _ _ _ _ => Change.closes_trans
  have collapsed := regapped_collapseBlanks [] (addPadding none [] ps)
  have signed := (collapsed.mono fun _ _ _ _ => Change.closes_of_shrinks).trans
    ((regapped_tightenSigns _).mono fun _ _ _ _ => Change.closes_of_signs) both
  have ranged := signed.trans
    ((spelt_tightRange.regapped _ _).mono fun _ _ _ _ => Change.closes_of_ranges) both
  exact ranged.trans ((regapped_trimEnds _).mono fun _ _ _ _ => Change.closes_of_trims) both

theorem Piece.closing_operator_left (operator : p.isOperator = true)
    (closing : Closing before (p :: after)) : OpeningEdge before (p :: after) ∨ before = [] := by
  rcases closing with ⟨_, d, _, -, -, same, digit⟩ | opening | ⟨q, -, r, isNext, edge⟩ | none | none
  · obtain ⟨rfl, -⟩ := List.cons.inj same
    rw [(inert_digit digit).noOperator] at operator
    cases operator
  · exact .inl opening
  · cases isNext
    rw [edge.2.noOperator.2] at operator
    cases operator
  · exact .inr none
  · cases none

theorem Piece.closing_operator_right (operator : p.isOperator = true)
    (closing : Closing (p :: before) after) : SignEdge (p :: before) after ∨ after = [] := by
  rcases closing with sign | ⟨opening, -⟩ | ⟨q, isFirst, r, -, edge⟩ | none | none
  · exact .inl sign
  · rw [opening p rfl] at operator
    cases operator
  · cases isFirst
    rw [edge.2.noOperator.1] at operator
    cases operator
  · cases none
  · exact .inr none

/-! ## Lone signs -/

/-- The sign of a number at the start or behind a parenthesis. Padding sets it apart, and puts it
together again. -/
def Piece.LoneSign (front : List Piece) (op : Operator) (behind : List Piece) : Prop :=
  op = .minus ∧ (∀ p ∈ front.getLast?, p = .char '(') ∧
    ∃ d ∈ behind.head?, d.satisfies Char.isDigit = true

theorem isBlank_of_forbidsPadding (allowed : forbidsPadding (some p) = false) :
    p.isBlank = false := by
  by_contra blank
  rw [forbidsPadding_blank (by simpa using blank)] at allowed
  cases allowed

theorem takeEndWhile_of_forbidsPadding (allowed : forbidsPadding front.getLast? = false) :
    takeEndWhile Piece.isBlank front = [] := by
  rcases List.eq_nil_or_concat front with rfl | ⟨front, p, rfl⟩
  · rfl
  · rw [List.concat_eq_append] at allowed ⊢
    rw [List.getLast?_concat] at allowed
    exact takeEndWhile_concat_of_not (isBlank_of_forbidsPadding allowed) front

theorem Piece.getLast?_solid (noGap : takeEndWhile Piece.isBlank front = []) :
    (solid front).getLast? = front.getLast? := by
  rcases List.eq_nil_or_concat front with rfl | ⟨front, p, rfl⟩
  · rfl
  · rw [List.concat_eq_append] at noGap ⊢
    have noBlank : p.isBlank = false := by
      by_contra blank
      rw [Bool.not_eq_false] at blank
      rw [takeEndWhile_append_of_all (List.forall_mem_singleton.2 blank)] at noGap
      simp at noGap
    rw [solid_append, solid_cons_solid noBlank, solid_nil]
    simp

theorem Piece.head?_solid (allowed : forbidsPadding behind.head? = false) :
    (solid behind).head? = behind.head? := by
  cases behind with
  | nil => rfl
  | cons p behind =>
    rw [solid_cons_solid (isBlank_of_forbidsPadding allowed)]
    rfl

namespace Piece.Loose

variable (loose : Loose none [] front op behind)

include loose

theorem isOperator : ∀ p ∈ op.pieces, p.isOperator = true := by
  obtain ⟨noPower, noRange⟩ := loose.padded
  refine List.all_eq_true.1 ?_
  cases op <;> first | rfl | exact absurd rfl noPower | exact absurd rfl noRange

theorem noGap : takeEndWhile Piece.isBlank front = [] := by
  have left := loose.left
  rw [Option.or_none] at left
  exact takeEndWhile_of_forbidsPadding left

/-- Where the gap in front of a loose operator may be that of a sign, the operator is one. -/
theorem loneSign_of_opening (begins : op.pieces = p :: ps)
    (opening : OpeningEdge (solid front).reverse (p :: solid (ps ++ behind))) :
    LoneSign front op behind := by
  obtain ⟨place, d, later, same, digit⟩ := opening
  obtain ⟨rfl, isNext⟩ := List.cons.inj same
  obtain ⟨rfl, rfl⟩ : op = .minus ∧ ps = [] := by
    cases op <;> cases begins
    exact ⟨rfl, rfl⟩
  rw [List.head?_reverse, getLast?_solid loose.noGap] at place
  refine ⟨rfl, place, d, ?_, digit⟩
  rw [← head?_solid loose.right, ← List.nil_append behind, isNext]
  rfl

/-- The same for the gap behind one that begins the pieces. -/
theorem loneSign_of_sign (none : front = [])
    (sign : SignEdge (op.pieces.reverse ++ before) (solid behind)) : LoneSign front op behind := by
  obtain ⟨_, d, later, same, -, isNext, digit⟩ := sign
  have isMinus : op = .minus := by
    cases op <;> first | rfl | cases same
  refine ⟨isMinus, by rw [none]; exact fun _ isLast => (by cases isLast), d, ?_, digit⟩
  rw [← head?_solid loose.right, isNext]
  rfl

/-- A gap that goes in front of a loose operator is that of a lone sign, or at the start. -/
theorem left_of_closing (closing : Closing (solid front).reverse (solid (op.pieces ++ behind))) :
    LoneSign front op behind ∨ front = [] := by
  obtain ⟨o, more, begins⟩ := exists_operator_cons op
  have isFirst : o ∈ op.pieces := begins ▸ List.mem_cons_self
  rw [begins, List.cons_append, solid_cons_solid (Operator.isBlank_of_mem isFirst)] at closing
  rcases closing_operator_left (loose.isOperator o isFirst) closing with opening | none
  · exact .inl (loose.loneSign_of_opening begins opening)
  · refine .inr (List.getLast?_eq_none_iff.1 ?_)
    rw [← getLast?_solid loose.noGap, List.reverse_eq_nil_iff.1 none]
    rfl

/-- A gap that goes behind it is that of a sign, or at the end. -/
theorem right_of_closing
    (closing : Closing (op.pieces.reverse ++ (solid front).reverse) (solid behind)) :
    SignEdge (op.pieces.reverse ++ (solid front).reverse) (solid behind) ∨ behind = [] := by
  obtain ⟨p, ps, ends⟩ : ∃ p ps, op.pieces.reverse = p :: ps := by cases op <;> exact ⟨_, _, rfl⟩
  have operator : p.isOperator = true :=
    loose.isOperator p (List.mem_reverse.1 (ends ▸ List.mem_cons_self))
  rw [ends] at closing ⊢
  refine (closing_operator_right operator closing).imp_right fun none =>
    List.head?_eq_none_iff.1 ?_
  rw [← head?_solid loose.right, none]
  rfl

/-- Before gaps went, the operator stood in the same place. -/
theorem split_operator {change : Change}
    (closes : ∀ {before gap gap' after}, change before gap gap' after →
      Change.closes before gap gap' after)
    (regapped : Regapped change [] ps (front ++ (op.pieces ++ behind))) :
    ∃ front' gap behind', ps = front' ++ (op.pieces ++ (gap ++ behind')) ∧
      solid front' = solid front ∧ behind'.head? = behind.head? ∧
      change (solid front).reverse (takeEndWhile Piece.isBlank front') []
        (solid (op.pieces ++ behind)) ∧
      change (op.pieces.reverse ++ (solid front).reverse) gap [] (solid behind) := by
  obtain ⟨o, more, begins⟩ := exists_operator_cons op
  have operator := loose.isOperator
  have noBlank : ∀ p ∈ op.pieces, p.isBlank = false := fun _ => Operator.isBlank_of_mem
  have allowed : ∀ p ∈ behind.head?, p.isBlank = false := by
    intro p isFirst
    have right := loose.right
    rw [Option.mem_def.1 isFirst] at right
    exact isBlank_of_forbidsPadding right
  rw [begins] at regapped operator noBlank ⊢
  obtain ⟨isOperator, others⟩ := List.forall_mem_cons.1 operator
  obtain ⟨noBlank, solids⟩ := List.forall_mem_cons.1 noBlank
  obtain ⟨front', rest, rfl, same, leftGap, later⟩ := regapped.split_gap noBlank
  have chain : (o :: more).IsChain fun p q => p.isOperator = true ∧ q.isOperator = true :=
    (List.pairwise_of_forall_mem_list fun p isFirst q isSecond =>
      ⟨operator p isFirst, operator q isSecond⟩).isChain
  obtain ⟨rest, rfl, last⟩ := later.to_chain solids chain <| by
    rintro p q before gap after ⟨left, right⟩ changed
    refine (closes changed rfl).resolve_right fun closing => ?_
    rcases closing_operator_right left closing with ⟨_, d, _, -, -, isNext, digit⟩ | none
    · obtain ⟨rfl, -⟩ := List.cons.inj isNext
      rw [(inert_digit digit).noOperator] at right
      cases right
    · cases none
  obtain ⟨gap, behind', rfl, isNext, rightGap⟩ := last.lead_gap allowed
  rw [loose.noGap, List.append_nil] at leftGap
  rw [List.append_nil] at rightGap
  refine ⟨front', gap, behind', rfl, same, isNext, ?_, ?_⟩
  · rwa [List.cons_append, solid_cons_solid noBlank]
  · rwa [List.reverse_cons, List.append_assoc]

end Piece.Loose

/-- Gaps between characters of numerals stay. -/
theorem regapped_numerals (quoted : Quoted ps) : Regapped (Change.keeps BothNumerals) [] ps
    (trimEnds Piece.isBlank (tightenedPieces ps)) := by
  have calm : ∀ p q, BothNumerals p q → p.isOperator = false ∧ q.isOperator = false :=
    fun _ _ both => ⟨noOperator_of_class (by decide) both.1, noOperator_of_class (by decide) both.2⟩
  have apart : ∀ p q, BothNumerals p q → ¬RangeEdge p q := by
    rintro p q ⟨left, right⟩ ⟨rfl | rfl, -⟩
    · cases left
    · cases right
  exact (regapped_tightened calm apart quoted).trans
    ((regapped_trimEnds _).mono fun _ _ _ _ => Change.keeps_of_trims)
      fun _ _ _ _ _ => Change.keeps_trans

/-- An operator cuts pieces in one way only, if the solid pieces in front of it are told. -/
theorem cut_operator {front' : List Piece} (op : Operator) (solids : solid front = solid front')
    (same : front ++ (op.pieces ++ ps) = front' ++ (op.pieces ++ qs)) :
    front = front' ∧ ps = qs := by
  obtain ⟨o, more, begins⟩ := exists_operator_cons op
  have noBlank : o.isBlank = false := Operator.isBlank_of_mem (begins ▸ List.mem_cons_self)
  rw [begins] at same
  obtain ⟨front, -, rest⟩ := cut_inj noBlank noBlank solids same
  exact ⟨front, List.append_cancel_left rest⟩

section Padded

variable (quoted : Quoted ps) (gapped : Gapped Snug [] ps)
  (split : trimEnds Piece.isBlank (tightenedPieces ps) = front ++ (op.pieces ++ behind))
  (loose : Loose none [] front op behind) (noSign : ¬LoneSign front op behind)

include quoted gapped split loose noSign

/-- Apart from lone signs, an operator that could be padded again could be padded before. -/
theorem exists_loose : ∃ front' behind', ps = front' ++ (op.pieces ++ behind') ∧
    solid front' = solid front ∧ Loose none [] front' op behind' := by
  have closed : Regapped Change.closes [] ps (trimEnds Piece.isBlank (tightenedPieces ps)) :=
    ((regapped_addPadding quoted).mono fun _ _ _ _ => Change.closes_of_pads).trans
      (regapped_closes ps) fun _ _ _ _ _ => Change.closes_trans
  have numerals := regapped_numerals quoted
  rw [split] at closed numerals
  obtain ⟨front', gap, behind', rfl, solids, isNext, leftGap, rightGap⟩ :=
    loose.split_operator And.right (closed.of_gapped gapped)
  have noGap : takeEndWhile Piece.isBlank front' = [] := by
    refine (leftGap.2 rfl).elim id fun closing => leftGap.1.first ?_
    rw [(loose.left_of_closing closing).resolve_left noSign]
    rfl
  have noGap' : gap = [] := by
    refine (rightGap.2 rfl).elim id fun closing => ?_
    rcases loose.right_of_closing closing with sign | none
    · exact rightGap.1.sign sign
    · exact rightGap.1.last (by rw [none]; rfl)
  subst noGap'
  refine ⟨front', behind', rfl, solids, loose.padded, ?_, isNext ▸ loose.right, ?_⟩
  · rw [← getLast?_solid noGap, solids, getLast?_solid loose.noGap]
    exact loose.left
  · -- no blank came between the characters of a numeral, so the same run ends in front
    obtain ⟨o, more, begins⟩ := exists_operator_cons op
    have noBlank : o.isBlank = false := Operator.isBlank_of_mem (begins ▸ List.mem_cons_self)
    rw [begins] at numerals
    obtain ⟨front'', behind'', whole, solids', runs⟩ :=
      numerals.foldl_runBehind [] noBlank fun _ => rfl
    obtain ⟨rfl, -⟩ := cut_inj noBlank noBlank (solids.trans solids'.symm) whole
    rw [runs noGap loose.noGap]
    exact loose.noExponent

/-- And so it got its spaces, and only the ends could take them away. -/
theorem eq_nil_of_loose : front = [] ∧ behind = [] := by
  obtain ⟨front', behind', rfl, solids, before⟩ := exists_loose quoted gapped split loose noSign
  obtain ⟨front'', behind'', padded, solids'⟩ := addPadding_of_loose quoted rfl before
  have closed := regapped_closes (front' ++ (op.pieces ++ behind'))
  rw [split, padded] at closed
  obtain ⟨front₁, gap, behind₁, whole, solids'', isNext, leftGap, rightGap⟩ :=
    loose.split_operator id closed
  rw [List.append_cons] at whole
  obtain ⟨rfl, spaced⟩ := cut_operator op (by
    rw [solid_append, solid_cons_blank rfl, solid_nil, List.append_nil, solids', solids, solids''])
    whole
  have first : front = [] := by
    refine (leftGap rfl).elim (fun none => ?_) fun closing =>
      (loose.left_of_closing closing).resolve_left noSign
    rw [takeEndWhile_append_of_all (List.forall_mem_singleton.2 rfl)] at none
    simp at none
  have some : gap ≠ [] := by
    rintro rfl
    have right := loose.right
    rw [← isNext, ← List.nil_append behind₁, ← spaced] at right
    cases right
  exact ⟨first, (loose.right_of_closing ((rightGap rfl).resolve_left some)).resolve_left
    fun sign => noSign (loose.loneSign_of_sign first sign)⟩

end Padded

end SheetFormula
