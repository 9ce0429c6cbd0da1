import SheetFormula.Proofs.Format.Steps
import SheetFormula.Proofs.Text.Essence

/-!
# What padding keeps

Every step of padding changes gaps only, and puts nothing but spaces in (`regapped_spaces`). So a
leaf keeps its pieces apart from blanks (`solid_spacedPieces`), and its essence
(`Text.Tidy.spaced`).

## Main definitions

* `tightenedPieces` — the steps of padding up to the ranges
* `Piece.Change.spaces` — gaps that stay, or get other spaces
* `Piece.Respaced` — pieces with other blanks between them
-/

namespace SheetFormula

open Piece

variable {p : Piece} {ps qs gap gap' before after : List Piece}

/-! ## All steps -/

/-- What all steps may do to a gap, one after the other, becomes of the gaps of padded pieces. -/
theorem regapped_spacedPieces {change : Change}
    (trans : ∀ {before gap gap' gap'' after}, change before gap gap' after →
      change before gap' gap'' after → change before gap gap'' after)
    (pads : ∀ before gap gap' after, Change.pads before gap gap' after →
      change before gap gap' after)
    (shrinks : ∀ before gap gap' after, Change.shrinks before gap gap' after →
      change before gap gap' after)
    (signs : ∀ before gap gap' after, Change.signs before gap gap' after →
      change before gap gap' after)
    (clears : ∀ edge ∈ [RangeEdge, ColumnEdge, RowEdge], ∀ before gap gap' after,
      Change.clears edge before gap gap' after → change before gap gap' after)
    (trims : ∀ before gap gap' after, Change.trims before gap gap' after →
      change before gap gap' after) (quoted : Quoted ps) :
    Regapped change [] ps (spacedPieces ps) := by
  have both : ∀ before gap gap' gap'' after, change before gap gap' after →
      change before gap' gap'' after → change before gap gap'' after := fun _ _ _ _ _ => trans
  have padded := ((regapped_addPadding quoted).mono pads).trans
    ((regapped_collapseBlanks _ _).mono shrinks) both
  have ranged := (padded.trans ((regapped_tightenSigns _).mono signs) both).trans
    ((spelt_tightRange.regapped _ _).mono (clears _ (by simp))) both
  have absolute := (ranged.trans ((spelt_absoluteColumn.regapped _ _).mono
    (clears _ (by simp))) both).trans
      ((spelt_absoluteRow.regapped _ _).mono (clears _ (by simp))) both
  exact absolute.trans ((regapped_trimEnds _).mono trims) both

/-- The steps of padding up to the ranges. -/
def tightenedPieces (ps : List Piece) : List Piece :=
  replaceAll tightRange? (tightenSigns (collapseBlanks (addPadding none [] ps)))

theorem spacedPieces_eq (ps : List Piece) : spacedPieces ps = trimEnds Piece.isBlank
    (replaceAll absoluteRowReference? (replaceAll absoluteColumnReference? (tightenedPieces ps))) :=
  rfl

/-- Between pieces that are no operators, only the rules about references change a gap. -/
theorem regapped_signs_keeps {pair : Piece → Piece → Prop}
    (calm : ∀ p q, pair p q → p.isOperator = false ∧ q.isOperator = false) (quoted : Quoted ps) :
    Regapped (Change.keeps pair) [] ps
      (tightenSigns (collapseBlanks (addPadding none [] ps))) := by
  have both : ∀ before gap gap' gap'' after, Change.keeps pair before gap gap' after →
      Change.keeps pair before gap' gap'' after → Change.keeps pair before gap gap'' after :=
    fun _ _ _ _ _ => Change.keeps_trans
  have collapsed := ((regapped_addPadding quoted).mono fun _ _ _ _ =>
    Change.keeps_of_pads calm).trans
      ((regapped_collapseBlanks _ _).mono fun _ _ _ _ => Change.keeps_of_shrinks) both
  exact collapsed.trans ((regapped_tightenSigns _).mono fun _ _ _ _ =>
    Change.keeps_of_signs calm) both

/-- Gaps between pieces that are neither operators nor parts of a range stay up to the ranges. -/
theorem regapped_tightened {pair : Piece → Piece → Prop}
    (calm : ∀ p q, pair p q → p.isOperator = false ∧ q.isOperator = false)
    (apart : ∀ p q, pair p q → ¬RangeEdge p q) (quoted : Quoted ps) :
    Regapped (Change.keeps pair) [] ps (tightenedPieces ps) :=
  (regapped_signs_keeps calm quoted).trans
    ((spelt_tightRange.regapped _ _).mono fun _ _ _ _ => Change.keeps_of_clears apart)
      fun _ _ _ _ _ => Change.keeps_trans

/-- A gap stays, or holds spaces only. -/
def Piece.Change.spaces : Change := fun _ gap gap' _ =>
  gap' = gap ∨ ∀ p ∈ gap', p = .char ' '

/-- Padding changes gaps, and puts spaces into them. -/
theorem regapped_spaces (quoted : Quoted ps) :
    Regapped Change.spaces [] ps (spacedPieces ps) := by
  have cleared : ∀ {gap : List Piece}, gap = [] → ∀ p ∈ gap, p = Piece.char ' ' := by
    rintro _ rfl _ met
    cases met
  refine regapped_spacedPieces ?_ ?pads ?shrinks ?signs ?clears ?trims quoted
  · rintro _ _ _ _ _ first (same | spaces)
    · exact same ▸ first
    · exact .inr spaces
  case pads => exact fun _ _ _ _ changed => changed.imp_right fun changed => changed.2.1
  case shrinks =>
    rintro _ _ _ _ (⟨-, same⟩ | ⟨-, rfl⟩)
    · exact .inl same
    · exact .inr fun _ => List.mem_singleton.1
  case signs =>
    rintro _ _ _ _ (⟨-, none⟩ | ⟨-, same | ⟨none, -⟩⟩)
    · exact .inr (cleared none)
    · exact .inl same
    · exact .inr (cleared none)
  case clears => exact fun _ _ _ _ _ _ changed => changed.imp_right fun changed => cleared changed.1
  case trims =>
    rintro _ _ _ _ (⟨-, none⟩ | ⟨-, same⟩)
    · exact .inr (cleared none)
    · exact .inl same

/-! ## Other blanks -/

/-- Blanks are taken out, and spaces are put in. -/
inductive Piece.Respaced : List Piece → List Piece → Prop where
  | nil : Respaced [] []
  | keep {ps qs : List Piece} (p : Piece) (rest : Respaced ps qs) : Respaced (p :: ps) (p :: qs)
  | drop {p : Piece} {ps qs : List Piece} (blank : p.isBlank = true) (rest : Respaced ps qs) :
      Respaced (p :: ps) qs
  | space {ps qs : List Piece} (rest : Respaced ps qs) : Respaced ps (.char ' ' :: qs)

namespace Piece

theorem Respaced.append {left right : List Piece} (first : Respaced ps qs)
    (second : Respaced left right) : Respaced (ps ++ left) (qs ++ right) := by
  induction first with
  | nil => exact second
  | keep p _ ih => exact .keep p ih
  | drop blank _ ih => exact .drop blank ih
  | space _ ih => exact .space ih

theorem Respaced.of_blanks (blanks : Blanks gap) (spaces : ∀ p ∈ gap', p = .char ' ') :
    Respaced gap gap' := by
  induction gap with
  | cons p gap ih =>
    obtain ⟨first, others⟩ := blanks_cons.1 blanks
    exact .drop first (ih others)
  | nil =>
    clear blanks
    induction gap' with
    | nil => exact .nil
    | cons p gap' ih =>
      obtain ⟨rfl, others⟩ := List.forall_mem_cons.1 spaces
      exact .space (ih others)

theorem Respaced.of_spaces (changed : Change.spaces before gap gap' after)
    (blanks : Blanks gap) : Respaced gap gap' := by
  rcases changed with rfl | spaces
  · clear blanks
    induction gap' with
    | nil => exact .nil
    | cons p gap' ih => exact .keep p ih
  · exact .of_blanks blanks spaces

theorem Regapped.respaced (regapped : Regapped Change.spaces before ps qs) : Respaced ps qs := by
  induction regapped with
  | last blanks _ changed => exact .of_spaces changed blanks
  | next blanks _ _ changed _ ih => exact (Respaced.of_spaces changed blanks).append (.keep _ ih)

end Piece

theorem respaced_spacedPieces (quoted : Quoted ps) : Respaced ps (spacedPieces ps) :=
  (regapped_spaces quoted).respaced

theorem solid_spacedPieces (quoted : Quoted ps) : solid (spacedPieces ps) = solid ps :=
  (regapped_spaces quoted).solid_eq

/-- Between spaces, a text keeps its first character if that is no blank. -/
theorem Text.head?_spaced {t : Text} {c : Char} (head : t.head? = some c)
    (noBlank : isBlank c = false) : (Text.spaced t).head? = some c := by
  obtain ⟨rest, rfl⟩ := List.head?_eq_some_iff.1 head
  obtain ⟨p, ps, cut, first, solidFirst⟩ : ∃ p ps, SheetFormula.pieces (c :: rest) = p :: ps ∧
      p.text.head? = some c ∧ p.satisfies isBlank = false := by
    rw [SheetFormula.pieces]
    split
    · next isQuote => exact ⟨_, _, rfl, by rw [isQuote]; rfl, rfl⟩
    · exact ⟨_, _, rfl, rfl, noBlank⟩
  have same := solid_spacedPieces (quoted_pieces (c :: rest))
  rw [cut, solid, solid, List.filter_cons_of_pos (a := p) (by rw [solidFirst]; rfl)] at same
  rw [Text.spaced, textOf, cut]
  cases whole : spacedPieces (p :: ps) with
  | nil => rw [whole] at same; cases same
  | cons q qs =>
    have solidHead : q.satisfies isBlank = false := head?_trimEnds (p := Piece.isBlank)
      (by rw [← List.head?_cons (a := q) (l := qs), ← whole]; rfl)
    rw [whole, List.filter_cons_of_pos (by rw [solidHead]; rfl)] at same
    rw [(List.cons.inj same).1, List.flatMap_cons, List.head?_append, first]
    rfl

@[simp] theorem Text.spaced_nil : Text.spaced [] = [] := by
  have noSign : signedNumber? [] = none := rfl
  have nothing : spacedPieces [] = [] := by
    simp only [spacedPieces, addPadding, collapseBlanks, tightenSigns, noSign, replaceAll]
    rfl
  rw [Text.spaced, SheetFormula.pieces, nothing]
  rfl

/-- A tidy text stays tidy between spaces, and keeps its essence. -/
theorem Text.Tidy.spaced {t : Text} (tidy : t.Tidy) :
    (Text.spaced t).Tidy ∧ (Text.spaced t).essence = t.essence := by
  -- both texts have the same pieces apart from blanks, and these have no essence
  have same := solid_spacedPieces (quoted_pieces t)
  have all : ∀ p ∈ solid (SheetFormula.pieces t), p.text.Tidy :=
    fun p met => (tidy.pieces p (List.mem_filter.1 met).1).1
  have before := (Text.essence_textOf all).2
  have behind := Text.essence_textOf (same ▸ all)
  rw [textOf_pieces] at before
  rw [same, ← before] at behind
  exact behind

end SheetFormula
