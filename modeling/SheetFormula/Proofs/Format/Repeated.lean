import SheetFormula.Proofs.Format.Apart
import SheetFormula.Proofs.Format.Loose

/-!
# Padding again and again

What is padded twice stays as it is (`Text.spaced_spaced_spaced`), and what is padded once may not
(`Text.spaced_changes_again`): trimming comes last, and a text that begins or ends with an operator
loses spaces that padding gives it back. In a text padded twice only lone signs get spaces
(`Piece.Reopened`), and the rule about signs takes just these away (`Reopened.tightenSigns_eq`).

## Main definitions

* `Piece.Reopened` — pieces with spaces around lone signs
* `Piece.NoSigns` — pieces without gaps behind signs
-/

namespace SheetFormula

open Piece

variable {p q : Piece} {ps qs rest gap before after front behind : List Piece}
  {op : Operator} {neighbour : Option Piece} {run : Text}

/-! ## Spaces around lone signs -/

/-- The same pieces, with a space on both sides of every sign of a number at the start or behind a
parenthesis. -/
inductive Piece.Reopened : Option Piece → List Piece → List Piece → Prop where
  | nil {neighbour : Option Piece} : Reopened neighbour [] []
  | keep {neighbour : Option Piece} {p : Piece} {ps qs : List Piece}
      (behind : Reopened (some p) ps qs) : Reopened neighbour (p :: ps) (p :: qs)
  | sign {neighbour : Option Piece} {d : Piece} {ps qs : List Piece}
      (place : ∀ p ∈ neighbour, p = .char '(') (digit : d.satisfies Char.isDigit = true)
      (behind : Reopened (some d) ps qs) :
      Reopened neighbour (.char '-' :: d :: ps) (.char ' ' :: .char '-' :: .char ' ' :: d :: qs)

/-- Pieces that are no signs stay. -/
theorem Piece.Reopened.keeps (behind : Reopened (ps.getLast?.or neighbour) qs rest) :
    Reopened neighbour (ps ++ qs) (ps ++ rest) := by
  induction ps generalizing neighbour with
  | nil => exact behind
  | cons p ps ih => exact .keep (ih (getLast?_or_cons p ps neighbour ▸ behind))

/-- Where only lone signs are loose, padding sets only them apart. -/
theorem reopened_addPadding {whole : List Piece} (front : List Piece) (quoted : Quoted ps)
    (split : whole = front ++ ps) (last : neighbour = front.getLast?)
    (isRun : run = front.foldl runBehind [])
    (loneSigns : ∀ front op behind, whole = front ++ (op.pieces ++ behind) →
      Loose none [] front op behind → LoneSign front op behind) :
    Reopened neighbour ps (addPadding neighbour run ps) := by
  fun_induction addPadding neighbour run ps generalizing front with
  | case1 => exact .nil
  | case2 neighbour run p ps _ ih =>
    refine .keep (ih (front ++ [p]) quoted.tail (by simp [split]) (by simp) ?_)
    rw [List.foldl_append, isRun]
    rfl
  | case3 neighbour run p ps op padded _ ih =>
    have begins := pieces_of_paddedOperator quoted padded
    have quotedRest := quoted.tail.of_subset (List.drop_subset (op.width - 1) ps)
    rw [← begins]
    refine .keeps ?_
    rw [getLast?_or_pieces]
    refine ih (front ++ op.pieces) quotedRest ?_ ?_ ?_
    · rw [split, ← begins, List.append_assoc]
    · rw [List.getLast?_append, getLast?_or_pieces]
    · rw [List.foldl_append, foldl_runBehind_operator]
  | case4 neighbour run p ps op padded allowed ih =>
    have begins := pieces_of_paddedOperator quoted padded
    have quotedRest := quoted.tail.of_subset (List.drop_subset (op.width - 1) ps)
    have behind := ih (front ++ op.pieces) quotedRest
      (by rw [split, ← begins, List.append_assoc])
      (by rw [List.getLast?_append, getLast?_or_pieces])
      (by rw [List.foldl_append, foldl_runBehind_operator])
    simp only [Bool.or_eq_true, not_or, Bool.not_eq_true] at allowed
    have loose : Loose none [] front op (ps.drop (op.width - 1)) := by
      refine ⟨?_, ?_, allowed.1.2, ?_⟩
      · rw [paddedOperator?, Option.filter_eq_some_iff] at padded
        simpa using padded.2
      · rw [Option.or_none, ← last]
        exact allowed.1.1
      · rw [← isRun]
        exact allowed.2
    obtain ⟨rfl, place, d, isNext, digit⟩ := loneSigns front op _ (by rw [split, begins]) loose
    obtain ⟨later, isLater⟩ := List.head?_eq_some_iff.1 isNext
    rw [← begins]
    rw [isLater] at behind ⊢
    generalize addPadding _ [] (d :: later) = padded' at behind ⊢
    cases behind with
    | keep behind => exact .sign (last ▸ place) digit behind
    | sign opening => cases opening _ rfl

/-! ## Single blanks -/

/-- Two pieces of which one is no blank. -/
def Piece.Broken (p q : Piece) : Prop :=
  (p.isBlank && q.isBlank) = false

theorem collapseBlanks_eq_self (chain : ps.IsChain Broken) : collapseBlanks ps = ps := by
  fun_induction collapseBlanks ps with
  | case1 => rfl
  | case2 => rfl
  | case3 p q ps blanks =>
    have broken : (p.isBlank && q.isBlank) = false := (List.isChain_cons_cons.1 chain).1
    rw [broken] at blanks
    cases blanks
  | case4 p q ps _ ih => rw [ih (List.isChain_cons_cons.1 chain).2]

theorem broken_left (noBlank : p.isBlank = false) (q : Piece) : Broken p q := by
  rw [Broken, noBlank, Bool.false_and]

theorem broken_right (p : Piece) (noBlank : q.isBlank = false) : Broken p q := by
  rw [Broken, noBlank, Bool.and_false]

/-- The spaces of lone signs are single. -/
theorem Piece.Reopened.isChain (reopened : Reopened neighbour ps qs)
    (chain : (neighbour.toList ++ ps).IsChain Broken) :
    (neighbour.toList ++ qs).IsChain Broken := by
  induction reopened with
  | nil => exact chain
  | @keep neighbour p ps qs _ ih =>
    rw [List.isChain_append] at chain ⊢
    exact ⟨chain.1, ih chain.2.1, chain.2.2⟩
  | @sign neighbour d ps qs place digit _ ih =>
    have noBlank := visible_digit digit
    rw [List.isChain_append] at chain ⊢
    refine ⟨chain.1, .cons_cons (broken_right _ rfl) (.cons_cons (broken_left rfl _)
      (.cons_cons (broken_right _ noBlank) (ih chain.2.1.tail))), ?_⟩
    rintro p isLast q ⟨⟩
    refine broken_left ?_ _
    rw [place p (by cases neighbour <;> simp_all)]
    rfl

/-- Where no gap is longer than one blank, no blank follows another. -/
theorem isChain_of_gapped (gapped : Gapped Snug before ps) : ps.IsChain Broken := by
  have short : ∀ {gap : List Piece}, gap.length ≤ 1 → gap.IsChain Broken := by
    intro gap short
    rcases Nat.le_one_iff_eq_zero_or_eq_one.1 short with none | one
    · rw [List.length_eq_zero_iff.1 none]
      exact .nil
    · obtain ⟨b, rfl⟩ := List.length_eq_one_iff.1 one
      exact .singleton b
  induction ps using gap_induction generalizing before with
  | last gap blanks => exact short (Regapped.of_blanks gapped blanks).2.2.short
  | next gap p ps blanks noBlank ih =>
    obtain ⟨snug, later⟩ := gapped.of_gap blanks noBlank
    refine List.isChain_append.2 ⟨short snug.short, List.isChain_cons.2
      ⟨fun q _ => broken_left noBlank q, ih later⟩, ?_⟩
    rintro q - _ ⟨⟩
    exact broken_right q noBlank

/-! ## Signs again -/

/-- No gap stands behind the sign of a number. -/
def Piece.NoSigns (ps : List Piece) : Prop :=
  ∀ qs, qs <:+ ps → signedOperand? qs = none

theorem Piece.NoSigns.tail (noSigns : NoSigns (p :: ps)) : NoSigns ps := fun qs isSuffix =>
  noSigns qs (isSuffix.trans (List.suffix_cons p ps))

theorem signedOperand?_eq_none_iff : signedOperand? (p :: ps) = none ↔
    (p.beforeSign = true → signedNumber? ps = none) := by
  rw [signedOperand?, Piece.beforeSign, signedNumber?_skipBlanks]
  split
  · next precedes => simp [precedes]
  · next noSign =>
    rw [Bool.not_eq_true] at noSign
    split
    · next opening => simp [opening]
    · next other => simp [noSign, other]

/-- No gap of padded pieces stands behind a sign. -/
theorem Piece.Gapped.signedNumber?_eq_none (front : List Piece)
    (gapped : Gapped Snug [] (front ++ ps))
    (place : SignPlace (solid front).reverse) : signedNumber? ps = none := by
  by_contra some
  obtain ⟨⟨qs, rest⟩, found⟩ := Option.ne_none_iff_exists'.1 some
  obtain ⟨gap, gap', d, blanks, blanks', some', digit, rfl, rfl⟩ :=
    signedNumber?_eq_some_iff.1 found
  have minus : (Piece.char '-').isBlank = false := rfl
  have split : front ++ (gap ++ .char '-' :: (gap' ++ d :: rest)) =
      front ++ gap ++ .char '-' :: gap' ++ d :: rest := by simp
  rw [split] at gapped
  have snug := gapped.split_gap (visible_digit digit)
  rw [takeEndWhile_append_of_not minus, takeEndWhile_eq_self blanks', List.append_nil, solid_append,
    solid_append, solid_blanks blanks, solid_cons_solid minus, solid_blanks blanks',
    List.append_nil] at snug
  refine some' (snug.sign ⟨(solid front).reverse, d, solid rest, ?_, place, rfl, digit⟩)
  rw [List.reverse_append]
  rfl

theorem Piece.Gapped.noSigns (gapped : Gapped Snug [] ps) : NoSigns ps := by
  rintro qs ⟨front, rfl⟩
  cases qs with
  | nil => rfl
  | cons p qs =>
    refine signedOperand?_eq_none_iff.2 fun before => ?_
    rw [List.append_cons] at gapped
    refine Gapped.signedNumber?_eq_none _ gapped ?_
    rw [solid_append, solid_cons_solid (isBlank_of_beforeSign before), solid_nil,
      List.reverse_append]
    rintro _ ⟨⟩
    exact before

/-- Behind a piece that opens nothing, no sign was set apart. -/
theorem Piece.Reopened.of_gap (reopened : Reopened (some p) ps (gap ++ q :: qs))
    (other : p ≠ .char '(') (blanks : Blanks gap) :
    ∃ rest, ps = gap ++ q :: rest ∧ Reopened (some q) rest qs := by
  induction gap generalizing p ps with
  | nil =>
    cases reopened with
    | keep behind => exact ⟨_, rfl, behind⟩
    | sign place => exact absurd (place p rfl) other
  | cons b gap ih =>
    obtain ⟨blank, others⟩ := blanks_cons.1 blanks
    rw [List.cons_append] at reopened
    generalize whole : gap ++ q :: qs = all at reopened
    cases reopened with
    | keep behind =>
      subst whole
      obtain ⟨rest, rfl, later⟩ := ih behind (by rintro rfl; cases blank) others
      exact ⟨rest, rfl, later⟩
    | sign place => exact absurd (place p rfl) other

/-- So there is no number behind a gap either. -/
theorem Piece.Reopened.signedNumber?_eq_none (reopened : Reopened (some p) ps qs)
    (none : signedNumber? (p :: ps) = none) : signedNumber? (p :: qs) = .none := by
  by_contra some
  obtain ⟨⟨word, rest⟩, found⟩ := Option.ne_none_iff_exists'.1 some
  obtain ⟨gap, gap', d, blanks, blanks', some', digit, whole, rfl⟩ :=
    signedNumber?_eq_some_iff.1 found
  obtain ⟨ps', whole', behind⟩ : ∃ ps', p :: ps = gap ++ .char '-' :: ps' ∧
      Reopened (.some (.char '-')) ps' (gap' ++ d :: rest) := by
    cases gap with
    | nil =>
      obtain ⟨rfl, rfl⟩ := List.cons.inj whole
      exact ⟨ps, rfl, reopened⟩
    | cons b gap =>
      obtain ⟨rfl, rfl⟩ := List.cons.inj whole
      obtain ⟨blank, others⟩ := blanks_cons.1 blanks
      obtain ⟨ps', rfl, behind⟩ := reopened.of_gap (by rintro rfl; cases blank) others
      exact ⟨ps', rfl, behind⟩
  obtain ⟨rest', rfl, -⟩ := behind.of_gap (by decide) blanks'
  have isMatch : signedNumber? (p :: ps) = .some ([.char '-', d], rest') :=
    signedNumber?_eq_some_iff.2 ⟨gap, gap', d, blanks, blanks', some', digit, whole', rfl⟩
  rw [none] at isMatch
  cases isMatch

/-- Nothing is replaced at a digit. -/
theorem replaceAll_digit (digit : p.satisfies Char.isDigit = true) :
    replaceAll signedOperand? (p :: ps) = p :: replaceAll signedOperand? ps := by
  refine replaceAll_none (signedOperand?_eq_none_iff.2 fun before => ?_)
  rw [beforeSign_of_digit digit] at before
  cases before

/-- The rule about signs takes the spaces of lone signs away. -/
theorem Piece.Reopened.replaceAll_eq (reopened : Reopened (some p) ps qs)
    (noSigns : NoSigns (p :: ps)) : replaceAll signedOperand? (p :: qs) = p :: ps := by
  generalize isPlace : some p = neighbour at reopened
  induction reopened generalizing p with
  | nil => rw [replaceAll_none (noSigns [p] List.suffix_rfl), replaceAll_nil]
  | @keep _ q ps qs behind ih =>
    have none : signedOperand? (p :: q :: qs) = none :=
      signedOperand?_eq_none_iff.2 fun before => behind.signedNumber?_eq_none
        (signedOperand?_eq_none_iff.1 (noSigns _ List.suffix_rfl) before)
    rw [replaceAll_none none, ih noSigns.tail rfl]
  | @sign _ d ps qs place digit behind ih =>
    obtain rfl := place p isPlace.symm
    have found : signedOperand? (.char '(' :: .char ' ' :: .char '-' :: .char ' ' :: d :: qs) =
        some ([.char '(', .char '-', d], qs) :=
      signedOperand?_eq_some_iff.2
        ⟨rfl, [.char ' '], [.char ' '], d, blanks_space, blanks_space, by simp, digit, rfl, rfl⟩
    have later := ih noSigns.tail.tail rfl
    rw [replaceAll_digit digit] at later
    rw [solid_signedOperand.replaceAll_some found]
    exact congrArg (fun rest => .char '(' :: .char '-' :: rest) later

theorem Piece.Reopened.tightenSigns_eq (reopened : Reopened none ps qs) (noSigns : NoSigns ps)
    (noSign : signedNumber? ps = none) : tightenSigns qs = ps := by
  cases reopened with
  | nil => rw [tightenSigns, noSign, replaceAll_nil]
  | keep behind =>
    rw [tightenSigns, behind.signedNumber?_eq_none noSign]
    exact behind.replaceAll_eq noSigns
  | @sign _ d ps qs _ digit behind =>
    have found : signedNumber? (.char ' ' :: .char '-' :: .char ' ' :: d :: qs) =
        some ([.char '-', d], qs) :=
      signedNumber?_eq_some_iff.2
        ⟨[.char ' '], [.char ' '], d, blanks_space, blanks_space, by simp, digit, rfl, rfl⟩
    have later := behind.replaceAll_eq noSigns.tail
    rw [replaceAll_digit digit] at later
    rw [tightenSigns, found]
    exact congrArg (.char '-' :: ·) later

/-! ## Padding three times -/

theorem spacedPieces_operator (op : Operator) : spacedPieces op.pieces = op.pieces := by
  cases op <;> decide +kernel

/-- Padded once more, pieces that are padded already stay as they are from then on. -/
theorem spacedPieces_spacedPieces (quoted : Quoted ps) (quoted' : Quoted (spacedPieces ps))
    (gapped : Gapped Snug [] ps) (columns : Rule.Idle absoluteColumnReference? ps)
    (rows : Rule.Idle absoluteRowReference? ps) :
    spacedPieces (spacedPieces ps) = spacedPieces ps := by
  by_cases alone : ∃ op : Operator, spacedPieces ps = op.pieces
  · obtain ⟨op, same⟩ := alone
    rw [same, spacedPieces_operator]
  have tightened := spacedPieces_eq_tightened quoted columns rows
  have gapped' := gapped_spacedPieces ps
  have loneSigns : ∀ front op behind, spacedPieces ps = front ++ (op.pieces ++ behind) →
      Loose none [] front op behind → LoneSign front op behind := by
    intro front op behind split loose
    by_contra noSign
    obtain ⟨rfl, rfl⟩ := eq_nil_of_loose quoted gapped (tightened ▸ split) loose noSign
    exact alone ⟨op, by rw [split, List.nil_append, List.append_nil]⟩
  have reopened : Reopened none (spacedPieces ps) (addPadding none [] (spacedPieces ps)) :=
    reopened_addPadding [] quoted' rfl rfl rfl loneSigns
  have single : collapseBlanks (addPadding none [] (spacedPieces ps)) =
      addPadding none [] (spacedPieces ps) :=
    collapseBlanks_eq_self (reopened.isChain (isChain_of_gapped gapped'))
  have noSign : signedNumber? (spacedPieces ps) = none :=
    Gapped.signedNumber?_eq_none [] gapped' fun _ isFirst => by cases isFirst
  have idle : Rule.Idle tightRange? (spacedPieces ps) := tightened ▸ idle_tightRange ps
  rw [spacedPieces_eq_tightened quoted' (idle_absoluteColumn ps) (idle_absoluteRow ps),
    tightenedPieces, single, reopened.tightenSigns_eq gapped'.noSigns noSign,
    idle.replaceAll_eq spelt_tightRange.solid, tightened, trimEnds_trimEnds]

/-- A text that was padded twice stays as it is when it is padded again. -/
theorem Text.spaced_spaced_spaced (t : Text) :
    Text.spaced (Text.spaced (Text.spaced t)) = Text.spaced (Text.spaced t) := by
  have once := pieces_spaced t
  have twice := pieces_spaced (Text.spaced t)
  have stays : spacedPieces (spacedPieces (pieces (Text.spaced t))) =
      spacedPieces (pieces (Text.spaced t)) :=
    spacedPieces_spacedPieces (quoted_pieces _) (twice ▸ quoted_pieces _)
      (once ▸ gapped_spacedPieces _) (once ▸ idle_absoluteColumn _) (once ▸ idle_absoluteRow _)
  calc Text.spaced (Text.spaced (Text.spaced t))
      = textOf (spacedPieces (spacedPieces (pieces (Text.spaced t)))) := by rw [Text.spaced, twice]
    _ = Text.spaced (Text.spaced t) := congrArg textOf stays

/-- The blank that keeps an operator from being padded goes when the ends are trimmed. -/
theorem Text.spaced_changes_again : Text.spaced (Text.spaced " /T".toList) = "/ T".toList ∧
    Text.spaced (Text.spaced " /T".toList) ≠ Text.spaced " /T".toList := by
  decide +kernel

end SheetFormula
