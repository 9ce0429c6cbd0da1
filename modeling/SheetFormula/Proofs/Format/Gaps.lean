import SheetFormula.Format.Padding
import SheetFormula.Proofs.Text.Ends
import SheetFormula.Proofs.Text.Pieces

/-!
# Gaps between pieces

The steps of padding put blanks in and take blanks out, and leave all other pieces alone and in
order. So a step is told gap by gap: what becomes of the blanks that stand between solid pieces
(`Piece.Regapped`). Steps follow each other gap by gap too (`Regapped.trans`), and a condition on
all gaps is a step that changes nothing (`Piece.Gapped`).

## Main definitions

* `Piece.Blanks` — pieces that are blanks
* `Piece.Change` — what may become of the blanks between solid pieces
* `Piece.Regapped` — the same solid pieces with other gaps between them
* `Piece.Gapped` — a condition on every gap
-/

namespace SheetFormula.Piece

/-- All pieces are blanks. -/
def Blanks (ps : List Piece) : Prop :=
  ∀ p ∈ ps, p.isBlank = true

variable {p q : Piece} {ps qs rs gap gap' before after : List Piece}

/-! ## Blanks and solid pieces -/

theorem blanks_nil : Blanks [] := fun _ met => absurd met List.not_mem_nil

theorem blanks_cons : Blanks (p :: ps) ↔ p.isBlank = true ∧ Blanks ps := List.forall_mem_cons

theorem blanks_append : Blanks (ps ++ qs) ↔ Blanks ps ∧ Blanks qs := List.forall_mem_append

theorem blanks_space : Blanks [char ' '] := fun _ met => List.mem_singleton.1 met ▸ by decide

theorem solid_nil : solid [] = [] := rfl

theorem solid_cons_blank (blank : p.isBlank = true) : solid (p :: ps) = solid ps := by
  rw [isBlank] at blank
  simp [solid, blank]

theorem solid_cons_solid (noBlank : p.isBlank = false) : solid (p :: ps) = p :: solid ps := by
  rw [isBlank] at noBlank
  simp [solid, noBlank]

theorem solid_blanks (blanks : Blanks gap) : solid gap = [] := by
  induction gap with
  | nil => rfl
  | cons p gap ih =>
    obtain ⟨first, others⟩ := blanks_cons.1 blanks
    rw [solid_cons_blank first, ih others]

theorem solid_gap (blanks : Blanks gap) : solid (gap ++ ps) = solid ps := by
  rw [solid_append, solid_blanks blanks, List.nil_append]

theorem not_blanks_solid (noBlank : p.isBlank = false) : ¬Blanks (gap ++ p :: ps) := by
  intro blanks
  have := (blanks_cons.1 (blanks_append.1 blanks).2).1
  rw [noBlank] at this
  cases this

/-- The first solid piece cuts pieces in one way only. -/
theorem gap_inj (blanks : Blanks gap) (blanks' : Blanks gap') (noBlank : p.isBlank = false)
    (noBlank' : q.isBlank = false) (same : gap ++ p :: ps = gap' ++ q :: qs) :
    gap = gap' ∧ p = q ∧ ps = qs := by
  induction gap generalizing gap' with
  | nil =>
    cases gap' with
    | nil => exact ⟨rfl, List.cons.inj same⟩
    | cons b gap' =>
      rw [(List.cons.inj same).1, (blanks_cons.1 blanks').1] at noBlank
      cases noBlank
  | cons b gap ih =>
    cases gap' with
    | nil =>
      rw [← (List.cons.inj same).1, (blanks_cons.1 blanks).1] at noBlank'
      cases noBlank'
    | cons b' gap' =>
      obtain ⟨rfl, rest⟩ := List.cons.inj same
      obtain ⟨rfl, others⟩ := ih (blanks_cons.1 blanks).2 (blanks_cons.1 blanks').2 rest
      exact ⟨rfl, others⟩

/-- A solid piece cuts pieces in one way only, if the solid pieces in front of it are told. -/
theorem cut_inj {front front' : List Piece} (noBlank : p.isBlank = false)
    (noBlank' : q.isBlank = false) (solids : solid front = solid front')
    (same : front ++ p :: ps = front' ++ q :: qs) : front = front' ∧ p = q ∧ ps = qs := by
  have length := congrArg List.length solids
  rcases List.append_eq_append_iff.1 same with ⟨more, rfl, rest⟩ | ⟨more, rfl, rest⟩
  all_goals
    cases more with
    | nil =>
      obtain ⟨rfl, rfl⟩ := List.cons.inj rest
      simp
    | cons r more =>
      obtain ⟨rfl, -⟩ := List.cons.inj rest
      rw [solid_append, solid_cons_solid (by assumption)] at length
      simp at length

/-- To show something of all pieces, show it of blanks, and of a gap with a solid piece behind it
and of what follows. -/
theorem gap_induction {motive : List Piece → Prop} (last : ∀ gap, Blanks gap → motive gap)
    (next : ∀ gap p ps, Blanks gap → p.isBlank = false → motive ps → motive (gap ++ p :: ps))
    (ps : List Piece) : motive ps := by
  have all : ∀ gap, Blanks gap → motive (gap ++ ps) := by
    induction ps with
    | nil => exact fun gap blanks => (List.append_nil gap).symm ▸ last gap blanks
    | cons p ps ih =>
      intro gap blanks
      cases blank : p.isBlank with
      | false => exact next gap p ps blanks blank (ih [] blanks_nil)
      | true =>
        rw [List.append_cons]
        exact ih _ (blanks_append.2 ⟨blanks, blanks_cons.2 ⟨blank, blanks_nil⟩⟩)
  exact all [] blanks_nil

/-! ## Changed gaps -/

/-- What may become of a gap, from the solid pieces in front of it, the nearest first, the blanks
that it has and those that it gets, and the solid pieces behind it. -/
abbrev Change := List Piece → List Piece → List Piece → List Piece → Prop

/-- Behind the same solid pieces, the same solid pieces with gaps between them that are changed. -/
inductive Regapped (change : Change) : List Piece → List Piece → List Piece → Prop where
  | last {before gap gap' : List Piece} (blanks : Blanks gap) (blanks' : Blanks gap')
      (changed : change before gap gap' []) : Regapped change before gap gap'
  | next {before gap gap' ps qs : List Piece} {p : Piece} (blanks : Blanks gap)
      (blanks' : Blanks gap') (noBlank : p.isBlank = false)
      (changed : change before gap gap' (p :: solid ps))
      (behind : Regapped change (p :: before) ps qs) :
      Regapped change before (gap ++ p :: ps) (gap' ++ p :: qs)

namespace Regapped

variable {change change' : Change}

theorem solid_eq (regapped : Regapped change before ps qs) : solid qs = solid ps := by
  induction regapped with
  | last blanks blanks' _ => rw [solid_blanks blanks, solid_blanks blanks']
  | next blanks blanks' noBlank _ _ ih =>
    rw [solid_gap blanks, solid_gap blanks', solid_cons_solid noBlank, solid_cons_solid noBlank, ih]

theorem mono (regapped : Regapped change before ps qs)
    (weaker : ∀ before gap gap' after, change before gap gap' after →
      change' before gap gap' after) : Regapped change' before ps qs := by
  induction regapped with
  | last blanks blanks' changed => exact .last blanks blanks' (weaker _ _ _ _ changed)
  | next blanks blanks' noBlank changed _ ih =>
    exact .next blanks blanks' noBlank (weaker _ _ _ _ changed) ih

theorem refl (same : ∀ before gap after, change before gap gap after) (before ps : List Piece) :
    Regapped change before ps ps := by
  induction ps using gap_induction generalizing before with
  | last gap blanks => exact .last blanks blanks (same _ _ _)
  | next gap p ps blanks noBlank ih => exact .next blanks blanks noBlank (same _ _ _) (ih _)

/-- A step back. -/
theorem flip (regapped : Regapped change before ps qs) :
    Regapped (fun before gap gap' after => change before gap' gap after) before qs ps := by
  induction regapped with
  | last blanks blanks' changed => exact .last blanks' blanks changed
  | next blanks blanks' noBlank changed behind ih =>
    exact .next blanks' blanks noBlank (behind.solid_eq ▸ changed) ih

/-! ### Taking apart -/

theorem of_blanks (regapped : Regapped change before gap qs) (blanks : Blanks gap) :
    Blanks qs ∧ change before gap qs [] := by
  cases regapped with
  | last _ blanks' changed => exact ⟨blanks', changed⟩
  | next _ _ noBlank => exact absurd blanks (not_blanks_solid noBlank)

theorem of_gap (regapped : Regapped change before (gap ++ p :: ps) qs) (blanks : Blanks gap)
    (noBlank : p.isBlank = false) : ∃ gap' rest, qs = gap' ++ p :: rest ∧ Blanks gap' ∧
      change before gap gap' (p :: solid ps) ∧ Regapped change (p :: before) ps rest := by
  generalize whole : gap ++ p :: ps = all at regapped
  cases regapped with
  | last blanks' => exact absurd (whole ▸ blanks') (not_blanks_solid noBlank)
  | next blanks' blanks'' noBlank' changed behind =>
    obtain ⟨rfl, rfl, rfl⟩ := gap_inj blanks blanks' noBlank noBlank' whole
    exact ⟨_, _, rfl, blanks'', changed, behind⟩

theorem of_solid (regapped : Regapped change before (p :: ps) qs) (noBlank : p.isBlank = false) :
    ∃ gap' rest, qs = gap' ++ p :: rest ∧ Blanks gap' ∧
      change before [] gap' (p :: solid ps) ∧ Regapped change (p :: before) ps rest :=
  of_gap (show Regapped change before ([] ++ p :: ps) qs from regapped) blanks_nil noBlank

/-- The same from the other side. -/
theorem to_gap (regapped : Regapped change before ps (gap' ++ p :: qs)) (blanks : Blanks gap')
    (noBlank : p.isBlank = false) : ∃ gap rest, ps = gap ++ p :: rest ∧ Blanks gap ∧
      change before gap gap' (p :: solid rest) ∧ Regapped change (p :: before) rest qs := by
  obtain ⟨gap, rest, whole, blanks', changed, behind⟩ := regapped.flip.of_gap blanks noBlank
  have back := behind.flip
  exact ⟨gap, rest, whole, blanks', back.solid_eq ▸ changed, back⟩

theorem to_blanks (regapped : Regapped change before ps gap') (blanks : Blanks gap') :
    Blanks ps ∧ change before ps gap' [] :=
  regapped.flip.of_blanks blanks

/-- Where no gap is in front any more, there was one or none. -/
theorem lead_gap (regapped : Regapped change before ps qs)
    (noBlank : ∀ p ∈ qs.head?, p.isBlank = false) : ∃ gap rest, ps = gap ++ rest ∧
      rest.head? = qs.head? ∧ change before gap [] (solid qs) := by
  cases qs with
  | nil => exact ⟨ps, [], (List.append_nil ps).symm, rfl, (regapped.to_blanks blanks_nil).2⟩
  | cons q qs =>
    have noGap : Regapped change before ps ([] ++ q :: qs) := regapped
    obtain ⟨gap, rest, rfl, -, changed, later⟩ := noGap.to_gap blanks_nil (noBlank q rfl)
    refine ⟨gap, q :: rest, rfl, rfl, ?_⟩
    rwa [solid_cons_solid (noBlank q rfl), later.solid_eq]

/-! ### Putting together -/

theorem trans {change'' : Change} (first : Regapped change before ps qs)
    (second : Regapped change' before qs rs)
    (both : ∀ before gap gap' gap'' after, change before gap gap' after →
      change' before gap' gap'' after → change'' before gap gap'' after) :
    Regapped change'' before ps rs := by
  induction first generalizing rs with
  | last blanks blanks' changed =>
    obtain ⟨blanks'', changed'⟩ := second.of_blanks blanks'
    exact .last blanks blanks'' (both _ _ _ _ _ changed changed')
  | next blanks blanks' noBlank changed behind ih =>
    obtain ⟨gap'', rest, rfl, blanks'', changed', behind'⟩ := second.of_gap blanks' noBlank
    refine .next blanks blanks'' noBlank (both _ _ _ _ _ changed ?_) (ih behind')
    rw [← behind.solid_eq]
    exact changed'

/-- A solid piece directly behind another one. -/
theorem cons (behind : Regapped change (p :: before) ps qs) (noBlank : p.isBlank = false)
    (changed : change before [] [] (p :: solid ps)) :
    Regapped change before (p :: ps) (p :: qs) :=
  show Regapped change before ([] ++ p :: ps) ([] ++ p :: qs) from
    .next blanks_nil blanks_nil noBlank changed behind

theorem solids (behind : Regapped change (rs.reverse ++ before) ps qs)
    (noBlank : ∀ r ∈ rs, r.isBlank = false) (same : ∀ before after, change before [] [] after) :
    Regapped change before (rs ++ ps) (rs ++ qs) := by
  induction rs generalizing before with
  | nil => exact behind
  | cons r rs ih =>
    obtain ⟨first, others⟩ := List.forall_mem_cons.1 noBlank
    rw [List.reverse_cons, List.append_assoc] at behind
    exact (ih behind others).cons first (same _ _)

/-- A solid piece of the outcome stood in the same place before, behind a gap that is changed. -/
theorem split_gap (regapped : Regapped change before ps (rs ++ p :: qs))
    (noBlank : p.isBlank = false) :
    ∃ front behind, ps = front ++ p :: behind ∧ solid front = solid rs ∧
      change ((solid rs).reverse ++ before) (takeEndWhile isBlank front) (takeEndWhile isBlank rs)
        (p :: solid qs) ∧ Regapped change (p :: ((solid rs).reverse ++ before)) behind qs := by
  induction rs using gap_induction generalizing before ps with
  | last gap' blanks' =>
    obtain ⟨gap, rest, rfl, blanks, changed, behind⟩ := regapped.to_gap blanks' noBlank
    refine ⟨gap, rest, rfl, ?_, ?_, ?_⟩
    · rw [solid_blanks blanks, solid_blanks blanks']
    · rw [solid_blanks blanks', takeEndWhile_eq_self blanks, takeEndWhile_eq_self blanks',
        behind.solid_eq]
      exact changed
    · rwa [solid_blanks blanks', List.reverse_nil, List.nil_append]
  | next gap' r rs blanks' noBlank' ih =>
    rw [List.append_assoc, List.cons_append] at regapped
    obtain ⟨gap, rest, rfl, blanks, -, behind⟩ := regapped.to_gap blanks' noBlank'
    obtain ⟨front, others, rfl, same, changed, later⟩ := ih behind
    refine ⟨gap ++ r :: front, others, by simp, ?_, ?_, ?_⟩
    · rw [solid_gap blanks, solid_gap blanks', solid_cons_solid noBlank', same,
        solid_cons_solid noBlank']
    · rw [solid_gap blanks', solid_cons_solid noBlank', List.reverse_cons, List.append_assoc,
        takeEndWhile_append_of_not noBlank', takeEndWhile_append_of_not noBlank']
      exact changed
    · rwa [solid_gap blanks', solid_cons_solid noBlank', List.reverse_cons, List.append_assoc]

/-- Pieces without gaps between them stay without, where none can come. -/
theorem of_chain {pair : Piece → Piece → Prop}
    (regapped : Regapped change (p :: before) (rs ++ ps) qs)
    (noBlank : ∀ q ∈ rs, q.isBlank = false) (chain : (p :: rs).IsChain pair)
    (tight : ∀ p q before gap after, pair p q →
      change (p :: before) [] gap (q :: after) → gap = []) :
    ∃ rest, qs = rs ++ rest ∧ Regapped change (rs.reverse ++ p :: before) ps rest := by
  induction rs generalizing p before qs with
  | nil => exact ⟨qs, rfl, regapped⟩
  | cons q rs ih =>
    obtain ⟨first, others⟩ := List.forall_mem_cons.1 noBlank
    obtain ⟨isPair, chain⟩ := List.isChain_cons_cons.1 chain
    obtain ⟨gap, behind, rfl, -, changed, later⟩ := regapped.of_solid first
    obtain ⟨rest, rfl, last⟩ := ih later others chain
    rw [tight p q before gap _ isPair changed]
    refine ⟨rest, rfl, ?_⟩
    rw [List.reverse_cons, List.append_assoc]
    exact last

/-- Pieces without gaps between them had none before, where none can go. -/
theorem to_chain {pair : Piece → Piece → Prop}
    (regapped : Regapped change (p :: before) ps (rs ++ qs))
    (noBlank : ∀ q ∈ rs, q.isBlank = false) (chain : (p :: rs).IsChain pair)
    (tight : ∀ p q before gap after, pair p q →
      change (p :: before) gap [] (q :: after) → gap = []) :
    ∃ rest, ps = rs ++ rest ∧ Regapped change (rs.reverse ++ p :: before) rest qs := by
  obtain ⟨rest, whole, later⟩ := regapped.flip.of_chain noBlank chain tight
  exact ⟨rest, whole, later.flip⟩

end Regapped

/-! ## Conditions on gaps -/

/-- Every gap behind the given pieces meets a condition on the solid pieces in front, its blanks,
and the solid pieces behind it. -/
def Gapped (condition : List Piece → List Piece → List Piece → Prop) (before ps : List Piece) :
    Prop :=
  Regapped (fun before gap gap' after => gap' = gap ∧ condition before gap after) before ps ps

section Gapped

variable {change : Change} {condition condition' : List Piece → List Piece → List Piece → Prop}

theorem Gapped.of_gap (gapped : Gapped condition before (gap ++ p :: ps)) (blanks : Blanks gap)
    (noBlank : p.isBlank = false) :
    condition before gap (p :: solid ps) ∧ Gapped condition (p :: before) ps := by
  obtain ⟨gap', rest, whole, blanks', changed, behind⟩ := Regapped.of_gap gapped blanks noBlank
  obtain ⟨rfl, -, rfl⟩ := gap_inj blanks blanks' noBlank noBlank whole
  exact ⟨changed.2, behind⟩

/-- The condition on the gap in front of a solid piece. -/
theorem Gapped.split_gap (gapped : Gapped condition before (rs ++ p :: qs))
    (noBlank : p.isBlank = false) : condition ((solid rs).reverse ++ before)
      (takeEndWhile isBlank rs) (p :: solid qs) := by
  obtain ⟨_, _, -, -, ⟨same, holds⟩, -⟩ := Regapped.split_gap gapped noBlank
  rwa [same]

/-- A step turns one condition into another. -/
theorem Gapped.regapped (gapped : Gapped condition before ps)
    (regapped : Regapped change before ps qs)
    (turns : ∀ before gap gap' after, condition before gap after →
      change before gap gap' after → condition' before gap' after) :
    Gapped condition' before qs := by
  induction regapped with
  | last blanks blanks' changed =>
    exact .last blanks' blanks' ⟨rfl, turns _ _ _ _ (Regapped.of_blanks gapped blanks).2.2 changed⟩
  | next blanks blanks' noBlank changed behind ih =>
    obtain ⟨holds, later⟩ := gapped.of_gap blanks noBlank
    exact .next blanks' blanks' noBlank ⟨rfl, behind.solid_eq ▸ turns _ _ _ _ holds changed⟩
      (ih later)

/-- A step may make use of a condition on the gaps that it changes. -/
theorem Regapped.of_gapped (regapped : Regapped change before ps qs)
    (gapped : Gapped condition before ps) :
    Regapped (fun before gap gap' after => condition before gap after ∧
      change before gap gap' after) before ps qs :=
  gapped.trans regapped fun _ _ _ _ _ holds changed => by
    obtain ⟨rfl, holds⟩ := holds
    exact ⟨holds, changed⟩

end Gapped

end SheetFormula.Piece
