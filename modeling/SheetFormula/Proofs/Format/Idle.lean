import SheetFormula.Proofs.Format.Padding

/-!
# Rules with nothing left to do

Once the words of a rule are put together, the rule finds them as they are: it changes nothing any
more (`Rule.Spelt.idle_replaceAll`). That stays so under every step that leaves the gaps inside and
beside words alone (`Rule.Idle.regapped`). So on a leaf that is set between spaces already the rules
about absolute references are idle, and padding comes down to its other steps
(`spacedPieces_eq_tightened`).

## Main definitions

* `Rule.Idle` — pieces in which a rule changes nothing
* `Piece.Change.preserves` — changes that make no new words
-/

namespace SheetFormula

open Piece

variable {p q : Piece} {ps qs rest gap gap' gap'' before after w : List Piece} {rule : Rule}
  {close : Piece → Piece → Bool} {edge edge' : Piece → Piece → Prop} {word : List Piece → Prop}

/-! ## Idle rules -/

/-- From match to match, the rule finds nothing but words without gaps. -/
inductive Rule.Idle (rule : Rule) : List Piece → Prop where
  | nil : Idle rule []
  | skip {p : Piece} {ps : List Piece} (none : rule (p :: ps) = none) (behind : Idle rule ps) :
      Idle rule (p :: ps)
  | found {w ps : List Piece} (isMatch : rule (w ++ ps) = some (w, ps)) (behind : Idle rule ps) :
      Idle rule (w ++ ps)

theorem Rule.Idle.replaceAll_eq (idle : rule.Idle ps) (solid : rule.Solid) :
    replaceAll rule ps = ps := by
  induction idle with
  | nil => exact replaceAll_nil
  | skip none _ ih => rw [replaceAll_none none, ih]
  | found isMatch _ ih => rw [solid.replaceAll_some isMatch, ih]

theorem Rule.Idle.behind_gap (solid : rule.Solid) (blanks : Blanks gap) (idle : rule.Idle ps) :
    rule.Idle (gap ++ ps) := by
  induction gap with
  | nil => exact idle
  | cons b gap ih =>
    obtain ⟨first, others⟩ := blanks_cons.1 blanks
    exact .skip (solid.blank first) (ih others)

theorem Rule.Idle.of_blanks (solid : rule.Solid) (blanks : Blanks gap) : rule.Idle gap := by
  have idle := Idle.behind_gap solid blanks .nil
  rwa [List.append_nil] at idle

/-! ## Words with other gaps -/

/-- Between close pieces a gap neither comes nor goes, and between two that make an edge none
comes. -/
def Piece.Change.preserves (close : Piece → Piece → Bool) (edge : Piece → Piece → Prop) : Change :=
  fun before gap gap' after => ∀ p ∈ before.head?, ∀ q ∈ after.head?,
    (close p q = true → (gap' = [] ↔ gap = [])) ∧ (edge p q → gap = [] → gap' = [])

theorem Piece.Change.preserves_trans (first : Change.preserves close edge before gap gap' after)
    (second : Change.preserves close edge before gap' gap'' after) :
    Change.preserves close edge before gap gap'' after := by
  intro p isFirst q isNext
  obtain ⟨same, stays⟩ := first p isFirst q isNext
  obtain ⟨same', stays'⟩ := second p isFirst q isNext
  exact ⟨fun isClose => (same' isClose).trans (same isClose),
    fun isEdge none => stays' isEdge (stays isEdge none)⟩

/-- Clearing the gaps of other words preserves these. -/
theorem Piece.Change.preserves_of_clears (apart : ∀ p q, close p q = true → ¬edge' p q)
    (changed : Change.clears edge' before gap gap' after) :
    Change.preserves close edge before gap gap' after := by
  intro p isFirst q isNext
  refine ⟨keeps_of_clears apart changed p isFirst q isNext, fun _ none => ?_⟩
  rcases changed with same | ⟨cleared, -⟩
  · rw [same, none]
  · exact cleared

theorem Piece.Change.preserves_of_keeps {pair : Piece → Piece → Prop}
    (inside : ∀ p q, close p q = true ∨ edge p q → pair p q)
    (changed : Change.keeps pair before gap gap' after) :
    Change.preserves close edge before gap gap' after := fun p isFirst q isNext =>
  ⟨fun isClose => changed p isFirst q isNext (inside p q (.inl isClose)),
    fun isEdge => (changed p isFirst q isNext (inside p q (.inr isEdge))).2⟩

/-- A word that pieces spell was there before its gaps were changed. -/
theorem Piece.Spells.of_regapped (spells : Spells close w (p :: qs) rest)
    (regapped : Regapped (Change.preserves close edge) (p :: before) ps qs) :
    ∃ rest', Spells close w (p :: ps) rest' ∧
      Regapped (Change.preserves close edge) (w.reverse ++ before) rest' rest := by
  generalize whole : p :: qs = all at spells
  induction spells generalizing p ps qs before with
  | last noBlank =>
    obtain ⟨rfl, rfl⟩ := List.cons.inj whole
    exact ⟨ps, .last noBlank, regapped⟩
  | @next c d w own behind rest noBlank blanks tight spells ih =>
    obtain ⟨rfl, rfl⟩ := List.cons.inj whole
    obtain ⟨gap, behind', rfl, blanks', preserved, later⟩ :=
      regapped.to_gap blanks (spells.isBlank d List.mem_cons_self)
    obtain ⟨rest', spells', last⟩ := ih later rfl
    refine ⟨rest', .next noBlank blanks' (fun isClose => ?_) spells', ?_⟩
    · exact ((preserved p rfl d rfl).1 isClose).1 (tight isClose)
    · rw [List.reverse_cons, List.append_assoc]
      exact last

namespace Rule

section Spelt

variable (spelt : rule.Spelt close edge word)

include spelt

/-- Behind a word, a digit follows at once with other gaps too, or with none of them. -/
theorem Spelt.stops_of_regapped (isWord : word w) (some : w ≠ [])
    (regapped : Regapped (Change.keeps fun p q => close p q = true) (w.reverse ++ before) ps qs)
    (stops : Stops Char.isDigit ps) : Stops Char.isDigit qs := by
  intro d isNext
  by_contra digit
  rw [Bool.not_eq_false] at digit
  obtain ⟨qs, rfl⟩ := List.head?_eq_some_iff.1 isNext
  have noGap : Regapped _ _ ps ([] ++ d :: qs) := regapped
  obtain ⟨gap, rest, rfl, -, kept, -⟩ := noGap.to_gap blanks_nil (visible_digit digit)
  have isLast := List.getLast?_eq_some_getLast some
  have isFirst : w.getLast some ∈ (w.reverse ++ before).head? := by
    rw [List.head?_append, List.head?_reverse, isLast]
    rfl
  have isClose := spelt.digits (spelt.getLast? isWord _ isLast) digit
  obtain rfl := (kept _ isFirst d rfl isClose).1 rfl
  rw [stops d rfl] at digit
  cases digit

/-- No match comes with other gaps. -/
theorem Spelt.none_of_regapped (none : rule (p :: ps) = none)
    (regapped : Regapped (Change.preserves close edge) (p :: before) ps qs) :
    rule (p :: qs) = .none := by
  by_contra some
  obtain ⟨⟨w, rest⟩, found⟩ := Option.ne_none_iff_exists'.1 some
  obtain ⟨isWord, spells, stops⟩ := spelt.match_iff.1 found
  obtain ⟨rest', spells', later⟩ := spells.of_regapped regapped
  have kept : Regapped (Change.keeps fun p q => close p q = true) (w.reverse ++ before) rest
      rest' :=
    later.flip.mono fun _ _ _ _ preserved p isFirst q isNext isClose =>
      ((preserved p isFirst q isNext).1 isClose).symm
  have found' := spelt.match_iff.2
    ⟨isWord, spells', spelt.stops_of_regapped isWord spells.ne_nil kept stops⟩
  rw [none] at found'
  cases found'

/-- Once its words are put together, a rule is idle. -/
theorem Spelt.idle_replaceAll (apart : ∀ p q, close p q = true → ¬edge p q) (ps : List Piece) :
    rule.Idle (replaceAll rule ps) := by
  refine spelt.solid.induction (motive := fun ps => rule.Idle (replaceAll rule ps))
    ?last ?next ?found ps
  case last =>
    intro gap blanks
    rw [spelt.solid.replaceAll_blanks blanks]
    exact .of_blanks spelt.solid blanks
  case next =>
    intro gap p ps blanks _ none ih
    rw [spelt.solid.replaceAll_gap blanks, replaceAll_none none]
    have cleared : Regapped (Change.preserves close edge) [p] ps (replaceAll rule ps) :=
      (spelt.regapped _ ps).mono fun _ _ _ _ => Change.preserves_of_clears apart
    exact .behind_gap spelt.solid blanks (.skip (spelt.none_of_regapped none cleared) ih)
  case found =>
    intro gap ps w rest blanks found ih
    obtain ⟨isWord, spells, stops⟩ := spelt.match_iff.1 found
    rw [spelt.solid.replaceAll_gap blanks, spelt.solid.replaceAll_some found]
    have kept : Regapped (Change.keeps fun p q => close p q = true) (w.reverse ++ []) rest _ :=
      (spelt.regapped _ rest).mono fun _ _ _ _ => Change.keeps_of_clears apart
    have again := spelt.match_iff.2 ⟨isWord, .refl spells.ne_nil spells.isBlank _,
      spelt.stops_of_regapped isWord spells.ne_nil kept stops⟩
    exact .behind_gap spelt.solid blanks (.found again ih)

/-- An idle rule stays idle with other gaps, if no gap comes into a word and none goes that keeps
pieces from being one. -/
theorem Spelt.idle_of_regapped (idle : rule.Idle ps) (blanks : Blanks gap)
    (regapped : Regapped (Change.preserves close edge) before (gap ++ ps) qs) : rule.Idle qs := by
  induction idle generalizing before gap qs with
  | nil =>
    rw [List.append_nil] at regapped
    exact .of_blanks spelt.solid (regapped.of_blanks blanks).1
  | @skip p ps none idle ih =>
    cases blank : p.isBlank with
    | true =>
      rw [List.append_cons] at regapped
      exact ih (blanks_append.2 ⟨blanks, blanks_cons.2 ⟨blank, blanks_nil⟩⟩) regapped
    | false =>
      obtain ⟨gap', rest, rfl, blanks', -, later⟩ := regapped.of_gap blanks blank
      exact .behind_gap spelt.solid blanks'
        (.skip (spelt.none_of_regapped none later) (ih blanks_nil later))
  | @found w ps isMatch idle ih =>
    obtain ⟨isWord, spells, stops⟩ := spelt.match_iff.1 isMatch
    have noBlank := spells.isBlank
    have chain := spelt.isChain isWord
    cases w with
    | nil => exact absurd rfl spells.ne_nil
    | cons p w =>
      obtain ⟨first, others⟩ := List.forall_mem_cons.1 noBlank
      obtain ⟨gap', rest, rfl, blanks', -, later⟩ := regapped.of_gap blanks first
      obtain ⟨rest, rfl, last⟩ := later.of_chain others chain <| by
        rintro p q before gap after (isClose | isEdge) preserved
        · exact ((preserved p rfl q rfl).1 isClose).2 rfl
        · exact (preserved p rfl q rfl).2 isEdge rfl
      have last : Regapped (Change.preserves close edge) ((p :: w).reverse ++ before) ps rest := by
        rwa [List.reverse_cons, List.append_assoc]
      have kept := last.mono fun _ _ _ _ preserved p isFirst q isNext =>
        (preserved p isFirst q isNext).1
      have again := spelt.match_iff.2 ⟨isWord, .refl spells.ne_nil noBlank rest,
        spelt.stops_of_regapped isWord spells.ne_nil kept stops⟩
      have idle : rule.Idle (p :: w ++ rest) := .found again (ih blanks_nil last)
      exact .behind_gap spelt.solid blanks' idle

end Spelt

end Rule

/-! ## Rules about references -/

theorem not_rangeEdge_of_reference (isClose : sameReference p q = true) : ¬RangeEdge p q := by
  rw [sameReference, Bool.and_eq_true] at isClose
  rintro ⟨rfl | rfl, -⟩
  · cases isClose.1
  · cases isClose.2

theorem satisfies_of_sameKind (isClose : sameKind p q = true) :
    (p.satisfies Char.isAlpha = true ∨ p.satisfies Char.isDigit = true) ∧
      (q.satisfies Char.isAlpha = true ∨ q.satisfies Char.isDigit = true) := by
  rw [sameKind, Bool.or_eq_true, Bool.and_eq_true, Bool.and_eq_true] at isClose
  exact ⟨isClose.imp And.left And.left, isClose.imp And.right And.right⟩

theorem referencePart_of_sameKind (isClose : sameKind p q = true) :
    p.satisfies Text.isReferencePart = true ∧ q.satisfies Text.isReferencePart = true := by
  obtain ⟨left, right⟩ := satisfies_of_sameKind isClose
  exact ⟨left.elim referencePart_of_letter referencePart_of_digit,
    right.elim referencePart_of_letter referencePart_of_digit⟩

theorem not_rangeEdge_of_kind (isClose : sameKind p q = true) : ¬RangeEdge p q := by
  obtain ⟨left, right⟩ := referencePart_of_sameKind isClose
  exact not_rangeEdge_of_reference (sameReference_of_parts left right)

theorem not_rowEdge_of_kind (isClose : sameKind p q = true) : ¬RowEdge p q := by
  rintro ⟨rfl | rfl, -⟩
  · rw [sameKind_dollar_left] at isClose
    cases isClose
  · rw [sameKind_dollar_right] at isClose
    cases isClose

theorem not_columnEdge_of_kind (isClose : sameKind p q = true) : ¬ColumnEdge p q := by
  rintro (isEdge | ⟨letter, digit⟩)
  · exact not_rowEdge_of_kind isClose isEdge
  · rw [sameKind_letter_digit letter digit] at isClose
    cases isClose

theorem wordParts_of_kind (isClose : sameKind p q = true) : WordParts p q := by
  obtain ⟨left, right⟩ := referencePart_of_sameKind isClose
  exact ⟨isWordPart_of_reference left, isWordPart_of_reference right⟩

theorem wordParts_of_columnEdge (isEdge : ColumnEdge p q) : WordParts p q := by
  rcases isEdge with isEdge | ⟨letter, digit⟩
  · exact isEdge.2
  · exact ⟨isWordPart_of_reference (referencePart_of_letter letter),
      isWordPart_of_reference (referencePart_of_digit digit)⟩

/-! ## A second pass -/

/-- What the steps up to the ranges do to gaps, when the rules about references have nothing left
to do. -/
theorem regapped_preserves (quoted : Quoted ps) (apart : ∀ p q, close p q = true → ¬RangeEdge p q)
    (inside : ∀ p q, close p q = true ∨ edge p q → WordParts p q) :
    Regapped (Change.preserves close edge) [] ps (tightenedPieces ps) := by
  have signed : Regapped (Change.preserves close edge) [] ps _ :=
    (regapped_signs_keeps (fun _ _ => WordParts.noOperator) quoted).mono fun _ _ _ _ =>
      Change.preserves_of_keeps inside
  exact signed.trans (spelt_tightRange.regapped _ _) fun _ _ _ _ _ first changed =>
    Change.preserves_trans first (Change.preserves_of_clears apart changed)

/-- The ends of the pieces are no words. -/
theorem Rule.Spelt.idle_trimEnds (spelt : rule.Spelt close edge word) (idle : rule.Idle ps) :
    rule.Idle (trimEnds Piece.isBlank ps) := by
  have kept : Regapped (Change.keeps fun _ _ => True) [] ([] ++ ps) _ :=
    (regapped_trimEnds ps).mono fun _ _ _ _ => Change.keeps_of_trims
  exact spelt.idle_of_regapped idle blanks_nil
    (kept.mono fun _ _ _ _ => Change.preserves_of_keeps fun _ _ _ => trivial)

theorem idle_absoluteColumn (ps : List Piece) :
    Rule.Idle absoluteColumnReference? (spacedPieces ps) := by
  refine spelt_absoluteColumn.idle_trimEnds (spelt_absoluteColumn.idle_of_regapped
    (spelt_absoluteColumn.idle_replaceAll (fun _ _ => not_columnEdge_of_kind) _) blanks_nil
      ((spelt_absoluteRow.regapped [] _).mono fun _ _ _ _ => ?_))
  exact Change.preserves_of_clears fun _ _ => not_rowEdge_of_kind

theorem idle_absoluteRow (ps : List Piece) : Rule.Idle absoluteRowReference? (spacedPieces ps) :=
  spelt_absoluteRow.idle_trimEnds
    (spelt_absoluteRow.idle_replaceAll (fun _ _ => not_rowEdge_of_kind) _)

/-- Where the rules about absolute references are idle, they stay that after the other steps. -/
theorem spacedPieces_eq_tightened (quoted : Quoted ps)
    (columns : Rule.Idle absoluteColumnReference? ps) (rows : Rule.Idle absoluteRowReference? ps) :
    spacedPieces ps = trimEnds Piece.isBlank (tightenedPieces ps) := by
  have columns' : Rule.Idle absoluteColumnReference? (tightenedPieces ps) :=
    spelt_absoluteColumn.idle_of_regapped columns blanks_nil
      (regapped_preserves quoted (fun _ _ => not_rangeEdge_of_kind) fun _ _ isPair =>
        isPair.elim wordParts_of_kind wordParts_of_columnEdge)
  have rows' : Rule.Idle absoluteRowReference? (tightenedPieces ps) :=
    spelt_absoluteRow.idle_of_regapped rows blanks_nil
      (regapped_preserves quoted (fun _ _ => not_rangeEdge_of_kind) fun _ _ isPair =>
        isPair.elim wordParts_of_kind And.right)
  rw [spacedPieces_eq, columns'.replaceAll_eq spelt_absoluteColumn.solid,
    rows'.replaceAll_eq spelt_absoluteRow.solid]

theorem idle_tightRange (ps : List Piece) :
    Rule.Idle tightRange? (trimEnds Piece.isBlank (tightenedPieces ps)) :=
  spelt_tightRange.idle_trimEnds
    (spelt_tightRange.idle_replaceAll (fun _ _ => not_rangeEdge_of_reference) _)

end SheetFormula
