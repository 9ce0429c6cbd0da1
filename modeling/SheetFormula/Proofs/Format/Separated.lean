import SheetFormula.Proofs.Format.Apart

/-!
# Blanks between names

A blank between two names or references is an operator of its own: it joins the ranges on its sides
to the cells that they share. Padding leaves such blanks in, with one exception. A dollar, letters,
blanks and digits are taken for a reference with an absolute column that an earlier step tore
apart, and put together (`Text.exists_gap_spaced`).

## Main definitions

* `Piece.AbsoluteColumn` — pieces that end in a dollar and letters
-/

namespace SheetFormula

open Piece

variable {a b p q : Piece} {ps qs rest gap gap' before after front behind : List Piece}

/-! ## Cutting at a gap -/

section Cut

variable {pair : Piece → Piece → Prop}

/-- Where pieces are cut in front of a gap, the same pieces with other gaps can be cut too. -/
theorem Piece.Regapped.cut_gap
    (regapped : Regapped (Change.keeps pair) before (front ++ (gap ++ b :: behind)) qs)
    (isLast : a ∈ front.getLast?) (noBlank : a.isBlank = false) (blanks : Blanks gap)
    (noBlank' : b.isBlank = false) (isPair : pair a b) :
    ∃ front' gap' behind', qs = front' ++ (gap' ++ b :: behind') ∧
      Regapped (Change.keeps pair) before front front' ∧ front'.getLast? = some a ∧ Blanks gap' ∧
        (gap' = [] ↔ gap = []) ∧ solid behind' = solid behind := by
  induction front using gap_induction generalizing before qs with
  | last own ownBlanks =>
    rw [ownBlanks a (List.mem_of_getLast? isLast)] at noBlank
    cases noBlank
  | next own p front ownBlanks noBlankP ih =>
    rw [List.append_assoc, List.cons_append] at regapped
    obtain ⟨own', rest, rfl, ownBlanks', changed, later⟩ := regapped.of_gap ownBlanks noBlankP
    rw [List.getLast?_append_cons] at isLast
    cases front with
    | nil =>
      obtain rfl : p = a := by simpa using isLast
      obtain ⟨gap', behind', rfl, blanks', kept, last⟩ := later.of_gap blanks noBlank'
      refine ⟨own' ++ [p], gap', behind', by simp, ?_, by simp, blanks',
        kept p rfl b rfl isPair, last.solid_eq⟩
      exact .next ownBlanks ownBlanks' noBlankP changed
        (.last blanks_nil blanks_nil (Change.keeps_of_eq rfl))
    | cons c front =>
      obtain ⟨front', gap', behind', rfl, more, isLast', blanks', kept, same⟩ :=
        ih later (by simpa using isLast)
      refine ⟨own' ++ p :: front', gap', behind', by simp,
        .next ownBlanks ownBlanks' noBlankP changed more, ?_, blanks', kept, same⟩
      rw [List.getLast?_append_cons, List.getLast?_cons, isLast']
      rfl

end Cut

/-! ## Words beside a gap -/

section Spelt

variable {close : Piece → Piece → Bool} {edge : Piece → Piece → Prop} {word : List Piece → Prop}
  {rule : Rule} {w : List Piece}

theorem Piece.Spells.suffix (spells : Spells close w ps rest) : ∃ spelt, ps = spelt ++ rest := by
  induction spells with
  | @last p rest _ => exact ⟨[p], rfl⟩
  | @next p q w own ps rest _ _ _ _ ih =>
    obtain ⟨spelt, whole⟩ := ih
    exact ⟨p :: (own ++ spelt), by rw [whole]; simp⟩

/-- More pieces may follow. -/
theorem Piece.Spells.append_rest (spells : Spells close w ps rest) (more : List Piece) :
    Spells close w (ps ++ more) (rest ++ more) := by
  induction spells with
  | last noBlank => exact .last noBlank
  | next noBlank blanks tight _ ih =>
    rw [List.cons_append, List.append_assoc, List.cons_append]
    exact .next noBlank blanks tight ih

/-- A word either ends in front of a gap or goes on behind it. -/
theorem Piece.Spells.cut_gap (spells : Spells close w (front ++ (gap ++ b :: behind)) rest)
    (isLast : a ∈ front.getLast?) (noBlank : a.isBlank = false) (blanks : Blanks gap)
    (noBlank' : b.isBlank = false) :
    (∃ rest', rest = rest' ++ (gap ++ b :: behind) ∧ Spells close w front rest') ∨
      ∃ u v, w = u ++ b :: v ∧ Spells close u front [] ∧ u.getLast? = some a ∧
        (close a b = true → gap = []) := by
  generalize whole : front ++ (gap ++ b :: behind) = ps at spells
  induction spells generalizing front with
  | @last p rest noBlankP =>
    cases front with
    | nil => cases isLast
    | cons c front =>
      obtain ⟨rfl, rfl⟩ := List.cons.inj whole
      exact .inl ⟨front, rfl, .last noBlankP⟩
  | @next p q w own ps rest noBlankP ownBlanks tight spells ih =>
    have noBlankQ := spells.isBlank q List.mem_cons_self
    cases front with
    | nil => cases isLast
    | cons c front =>
      obtain ⟨rfl, cutFront⟩ := List.cons.inj whole
      obtain ⟨lead, leadBlanks, cut⟩ := exists_gap front
      have first := head_skipBlanks front
      generalize skipBlanks front = core at cut first
      subst cut
      have whole : lead ++ core ++ (gap ++ b :: behind) = own ++ q :: ps := cutFront
      cases core with
      | nil =>
        -- only the word's first piece stands in front of the gap
        rw [List.append_nil] at isLast whole
        have none : lead = [] := by
          by_contra some
          rw [List.getLast?_cons, List.getLast?_eq_some_getLast some] at isLast
          have last : a ∈ lead := Option.some.inj isLast ▸ List.getLast_mem some
          rw [leadBlanks a last] at noBlank
          cases noBlank
        subst none
        obtain rfl : c = a := by simpa using isLast
        obtain ⟨rfl, rfl, rfl⟩ := gap_inj blanks ownBlanks noBlank' noBlankQ whole
        exact .inr ⟨[c], w, rfl, .last noBlankP, rfl, tight⟩
      | cons d core =>
        rw [List.append_assoc] at whole
        obtain ⟨rfl, rfl, rfl⟩ := gap_inj leadBlanks ownBlanks (first d rfl) noBlankQ whole
        have isLast : a ∈ (d :: core).getLast? := by
          rwa [← List.cons_append, List.getLast?_append_cons] at isLast
        rcases ih isLast rfl with ⟨rest', rfl, later⟩ | ⟨u, v, same, later, last, close'⟩
        · exact .inl ⟨rest', rfl, .next noBlankP ownBlanks tight later⟩
        · obtain ⟨e, u, rfl⟩ := List.exists_cons_of_ne_nil later.ne_nil
          obtain rfl : e = d := Option.some.inj later.head?_eq.symm
          refine .inr ⟨c :: e :: u, v, congrArg (c :: ·) same,
            .next noBlankP ownBlanks tight later, ?_, close'⟩
          rw [List.getLast?_cons, last]
          rfl

/-- Behind a word that ends in front of a gap, a digit follows as before. -/
theorem stops_append_gap (blanks : Blanks gap) (nonempty : gap ≠ []) :
    Stops Char.isDigit (rest ++ (gap ++ ps)) ↔ Stops Char.isDigit rest := by
  cases rest with
  | nil =>
    obtain ⟨g, gap, rfl⟩ := List.exists_cons_of_ne_nil nonempty
    constructor
    · rintro - _ ⟨⟩
    · rintro - _ ⟨⟩
      exact visible_digit.of_blank (blanks_cons.1 blanks).1
  | cons r rest => exact Iff.rfl

/-- A match in front of a gap stays one. -/
theorem Rule.Spelt.append_gap (spelt : rule.Spelt close edge word) (blanks : Blanks gap)
    (nonempty : gap ≠ []) (found : rule front = some (w, rest)) :
    rule (front ++ (gap ++ ps)) = some (w, rest ++ (gap ++ ps)) := by
  obtain ⟨isWord, spells, stops⟩ := spelt.match_iff.1 found
  exact spelt.match_iff.2
    ⟨isWord, spells.append_rest _, (stops_append_gap blanks nonempty).2 stops⟩

/-- No match comes in front of a gap, unless a word lies across that. -/
theorem Rule.Spelt.none_append_gap (spelt : rule.Spelt close edge word)
    (isLast : a ∈ front.getLast?) (noBlank : a.isBlank = false) (blanks : Blanks gap)
    (nonempty : gap ≠ []) (noBlank' : b.isBlank = false)
    (apart : ∀ u v, word (u ++ b :: v) → Spells close u front [] → u.getLast? = some a →
      close a b = true) (none : rule front = none) :
    rule (front ++ (gap ++ b :: behind)) = .none := by
  by_contra some
  obtain ⟨⟨w, rest⟩, found⟩ := Option.ne_none_iff_exists'.1 some
  obtain ⟨isWord, spells, stops⟩ := spelt.match_iff.1 found
  rcases spells.cut_gap isLast noBlank blanks noBlank' with
    ⟨rest', rfl, inFront⟩ | ⟨u, v, rfl, inFront, last, tight⟩
  · have found' := spelt.match_iff.2
      ⟨isWord, inFront, (stops_append_gap blanks nonempty).1 stops⟩
    rw [none] at found'
    cases found'
  · exact nonempty (tight (apart u v isWord inFront last))

/-- A rule goes to work on both sides of a gap, unless a word lies across that. -/
theorem Rule.Spelt.replaceAll_cut (spelt : rule.Spelt close edge word)
    (isLast : a ∈ front.getLast?) (noBlank : a.isBlank = false) (blanks : Blanks gap)
    (nonempty : gap ≠ []) (noBlank' : b.isBlank = false)
    (apart : ∀ lead core u v, front = lead ++ core → word (u ++ b :: v) → Spells close u core [] →
      u.getLast? = some a → close a b = true) :
    replaceAll rule (front ++ (gap ++ b :: behind)) =
      replaceAll rule front ++ (gap ++ replaceAll rule (b :: behind)) := by
  have gapFirst : ∀ {ps}, replaceAll rule (gap ++ ps) = gap ++ replaceAll rule ps :=
    spelt.solid.replaceAll_gap blanks
  revert isLast apart
  refine spelt.solid.induction (motive := fun front => a ∈ front.getLast? →
    (∀ lead core u v, front = lead ++ core → word (u ++ b :: v) → Spells close u core [] →
      u.getLast? = some a → close a b = true) →
    replaceAll rule (front ++ (gap ++ b :: behind)) =
      replaceAll rule front ++ (gap ++ replaceAll rule (b :: behind))) ?last ?next ?found front
  case last =>
    intro own ownBlanks isLast
    rw [ownBlanks a (List.mem_of_getLast? isLast)] at noBlank
    cases noBlank
  case next =>
    intro own p front ownBlanks noBlankP none ih isLast apart
    rw [List.getLast?_append_cons] at isLast
    have none' : rule (p :: (front ++ (gap ++ b :: behind))) = .none :=
      spelt.none_append_gap isLast noBlank blanks nonempty noBlank'
        (fun u v => apart own (p :: front) u v rfl) none
    rw [List.append_assoc, List.cons_append, spelt.solid.replaceAll_gap ownBlanks,
      replaceAll_none none', spelt.solid.replaceAll_gap ownBlanks, replaceAll_none none]
    cases front with
    | nil =>
      rw [List.nil_append, gapFirst, replaceAll_nil]
      simp
    | cons c front =>
      rw [ih (by simpa using isLast) fun lead core u v whole => apart (own ++ p :: lead) core u v
        (by rw [whole]; simp)]
      simp
  case found =>
    intro own ps w rest ownBlanks found ih isLast apart
    obtain ⟨spelling, rfl⟩ := (spelt.match_iff.1 found).2.1.suffix
    rw [List.append_assoc own, spelt.solid.replaceAll_gap ownBlanks,
      spelt.solid.replaceAll_some (spelt.append_gap blanks nonempty found),
      spelt.solid.replaceAll_gap ownBlanks, spelt.solid.replaceAll_some found]
    cases rest with
    | nil =>
      rw [List.nil_append, gapFirst, replaceAll_nil]
      simp
    | cons c rest =>
      rw [← List.append_assoc, List.getLast?_append_cons] at isLast
      rw [ih isLast fun lead core u v whole => apart (own ++ (spelling ++ lead)) core u v
        (by rw [whole]; simp)]
      simp

end Spelt

/-! ## Absolute columns -/

/-- The pieces end in a dollar and letters, perhaps with blanks between them. -/
def Piece.AbsoluteColumn (ps : List Piece) : Prop :=
  ∃ front gap letters, ps = front ++ .char '$' :: (gap ++ letters) ∧ Blanks gap ∧
    Run Char.isAlpha letters

/-- Within the word of an absolute column, two pieces that are no dollars are of one kind, or the
first one ends the column and the second one begins the row. -/
theorem Piece.IsColumnWord.between {u v core : List Piece} (isWord : IsColumnWord (u ++ b :: v))
    (spells : Spells sameKind u core []) (last : u.getLast? = some a) (noDollar : a ≠ .char '$')
    (noDollar' : b ≠ .char '$') : sameKind a b = true ∨
      b.satisfies Char.isDigit = true ∧ AbsoluteColumn core := by
  obtain ⟨letters, dollar, digits, letterRun, isDollar, digitRun, whole⟩ := isWord
  obtain ⟨c, u, rfl⟩ := List.exists_cons_of_ne_nil spells.ne_nil
  obtain rfl : c = .char '$' := (List.cons.inj whole).1
  have whole : u ++ b :: v = letters ++ (dollar ++ digits) := (List.cons.inj whole).2
  have columnEnds : u = letters → AbsoluteColumn core := by
    rintro rfl
    obtain ⟨gap, mid, first, blanks, -, second⟩ :=
      Spells.of_append (u := [.char '$']) (by simp) letterRun.1 spells
    obtain rfl := second.eq_append letterRun.chain_letters
    obtain rfl := first.eq_append (.singleton _)
    exact ⟨[], gap, u, by simp, blanks, letterRun⟩
  -- a piece of the row in front of the second piece is a digit
  have inRow : ∀ {more}, digits = more ++ b :: v → a ∈ more → sameKind a b = true := by
    intro more same met
    exact sameKind_of_digits (digitRun.2 a (by simp [same, met])) (digitRun.2 b (by simp [same]))
  have lastOf : ∀ {front more : List Piece}, more ≠ [] → u = front ++ more → a ∈ more := by
    rintro front more some rfl
    rw [← List.cons_append, List.getLast?_append_of_ne_nil _ some] at last
    exact List.mem_of_getLast? last
  have behindLetters : ∀ more, u = letters ++ more → dollar ++ digits = more ++ b :: v →
      sameKind a b = true ∨ b.satisfies Char.isDigit = true ∧ AbsoluteColumn core := by
    intro more split row
    rcases isDollar with rfl | rfl
    · have row : digits = more ++ b :: v := row
      by_cases none : more = []
      · subst none
        exact .inr ⟨digitRun.2 b (by simp [row]), columnEnds (by simp [split])⟩
      · exact .inl (inRow row (lastOf none split))
    · cases more with
      | nil => exact absurd (List.cons.inj row).1.symm noDollar'
      | cons c more =>
        obtain rfl : Piece.char '$' = c := (List.cons.inj row).1
        have row : digits = more ++ b :: v := (List.cons.inj row).2
        have met := lastOf (List.cons_ne_nil _ _) split
        exact .inl (inRow row ((List.mem_cons.1 met).resolve_left noDollar))
  rcases List.append_eq_append_iff.1 whole with ⟨more, split, rest⟩ | ⟨more, split, row⟩
  · cases more with
    | nil => exact behindLetters [] (by simpa using split.symm) rest.symm
    | cons c more =>
      obtain ⟨rfl, -⟩ := List.cons.inj rest
      have letter : b.satisfies Char.isAlpha = true := letterRun.2 b (by simp [split])
      by_cases none : u = []
      · rw [none] at last
        exact absurd (Option.some.inj last).symm noDollar
      · have met : a ∈ u := by
          rw [List.getLast?_cons, List.getLast?_eq_some_getLast none] at last
          exact Option.some.inj last ▸ List.getLast_mem none
        exact .inl (sameKind_of_letters (letterRun.2 a (by simp [split, met])) letter)
  · exact behindLetters more split row

/-- Letters without gaps between them had none before, behind a letter. -/
theorem Piece.Regapped.letters (regapped : Regapped (Change.keeps BothInert) (p :: before) ps qs)
    (letter : p.satisfies Char.isAlpha = true)
    (letters : ∀ q ∈ qs, q.satisfies Char.isAlpha = true) :
    ∃ trail, ps = qs ++ trail ∧ Blanks trail := by
  have all : ∀ q ∈ p :: qs, q.satisfies Char.isAlpha = true :=
    List.forall_mem_cons.2 ⟨letter, letters⟩
  have chain : (p :: qs).IsChain BothInert :=
    (List.pairwise_of_forall_mem_list fun q isFirst r isSecond =>
      ⟨inert_letter (all q isFirst), inert_letter (all r isSecond)⟩).isChain
  have ends : Regapped (Change.keeps BothInert) (p :: before) ps (qs ++ []) := by
    rwa [List.append_nil]
  obtain ⟨trail, whole, later⟩ := ends.to_chain (fun q met => visible_letter (letters q met)) chain
    fun p q _ _ _ both kept => (kept p rfl q rfl both).1 rfl
  exact ⟨trail, whole, (later.to_blanks blanks_nil).1⟩

/-- The letters of a column were there before. -/
theorem Piece.Regapped.absoluteColumn (regapped : Regapped (Change.keeps BothInert) before ps qs)
    (isLast : a ∈ ps.getLast?) (noBlank : a.isBlank = false) (column : AbsoluteColumn qs) :
    AbsoluteColumn ps := by
  obtain ⟨front, gap, letters, rfl, blanks, nonempty, all⟩ := column
  obtain ⟨front', rest, rfl, -, -, behind⟩ := regapped.split_gap rfl
  obtain ⟨l, letters, rfl⟩ := List.exists_cons_of_ne_nil nonempty
  obtain ⟨letter, others⟩ := List.forall_mem_cons.1 all
  obtain ⟨gap', rest, rfl, blanks', -, later⟩ := behind.to_gap blanks (visible_letter letter)
  obtain ⟨trail, rfl, trailing⟩ := later.letters letter others
  have none : trail = [] := by
    by_contra some
    have last : a ∈ trail := by
      rw [← List.cons_append, ← List.append_assoc, ← List.cons_append, ← List.append_assoc,
        List.getLast?_append_of_ne_nil _ some] at isLast
      exact List.mem_of_getLast? isLast
    rw [trailing a last] at noBlank
    cases noBlank
  exact ⟨front', gap', l :: letters, by rw [none, List.append_nil], blanks',
    List.cons_ne_nil _ _, all⟩

/-! ## Gaps that stay -/

theorem regapped_trimmedRows (ps : List Piece) : Regapped (Change.keeps BothInert) [] ps
    (trimEnds Piece.isBlank (replaceAll absoluteRowReference? ps)) :=
  ((spelt_absoluteRow.regapped _ _).mono fun _ _ _ _ =>
    Change.keeps_of_clears fun _ _ => not_rowEdge).trans
      ((regapped_trimEnds _).mono fun _ _ _ _ => Change.keeps_of_trims)
        fun _ _ _ _ _ => Change.keeps_trans

/-- The rule about absolute columns leaves a gap between inert pieces, unless a column stands in
front of it and a digit behind it. -/
theorem exists_gap_columns (isLast : a ∈ front.getLast?) (inert : BothInert a b)
    (noBlank : a.isBlank = false) (blanks : Blanks gap) (nonempty : gap ≠ [])
    (noBlank' : b.isBlank = false)
    (noReference : b.satisfies Char.isDigit = true → ¬AbsoluteColumn front) :
    ∃ front' behind', replaceAll absoluteColumnReference? (front ++ (gap ++ b :: behind)) =
        front' ++ (gap ++ b :: behind') ∧ a ∈ front'.getLast? ∧ solid front' = solid front ∧
          solid behind' = solid behind := by
  have cut : replaceAll absoluteColumnReference? (front ++ (gap ++ b :: behind)) = _ :=
    spelt_absoluteColumn.replaceAll_cut isLast noBlank blanks nonempty noBlank' <| by
      intro lead core u v split isWord spells last
      refine (isWord.between spells last inert.1.noDollar inert.2.noDollar).resolve_right ?_
      rintro ⟨digit, front', gap', letters, rfl, blanks', run⟩
      exact noReference digit ⟨lead ++ front', gap', letters, by simp [split], blanks', run⟩
  have inFront := spelt_absoluteColumn.regapped [] front
  have behindGap := spelt_absoluteColumn.regapped [] (b :: behind)
  have isLast' : a ∈ (replaceAll absoluteColumnReference? front).getLast? := by
    obtain ⟨front₀, rfl⟩ := List.getLast?_eq_some_iff.1 isLast
    obtain ⟨front', trail, whole, -, -, ends⟩ := inFront.flip.split_gap noBlank
    obtain ⟨-, none | ⟨none, -⟩⟩ := ends.to_blanks blanks_nil <;> simp [whole, none]
  obtain ⟨gap', behind', whole, -, none | ⟨none, -⟩, later⟩ := behindGap.of_solid noBlank' <;>
    exact ⟨_, behind', by rw [cut, whole, none, List.nil_append], isLast', inFront.solid_eq,
      later.solid_eq⟩

namespace Text

variable {t : Text} {c d : Char}

/-- Padding does not join two names, or references, that blanks keep apart. It only takes the blanks
away between the letters of a column behind a dollar and digits. -/
theorem exists_gap_spaced
    (whole : SheetFormula.pieces t = front ++ .char c :: (gap ++ .char d :: behind))
    (blanks : ∀ p ∈ gap, p.isBlank = true) (nonempty : gap ≠ []) (isName : isNameChar c = true)
    (isName' : isNameChar d = true)
    (noReference : d.isDigit = true → ¬AbsoluteColumn (front ++ [.char c])) :
    ∃ front' gap' behind', SheetFormula.pieces (Text.spaced t) =
        front' ++ .char c :: (gap' ++ .char d :: behind') ∧
      (∀ p ∈ gap', p.isBlank = true) ∧ gap' ≠ [] ∧
        solid front' = solid front ∧ solid behind' = solid behind := by
  have inert : BothInert (.char c) (.char d) := ⟨inert_name isName, inert_name isName'⟩
  have noBlank : (Piece.char c).isBlank = false := (isNameChar_spelling isName).2.2.2
  have noBlank' : (Piece.char d).isBlank = false := (isNameChar_spelling isName').2.2.2
  have isLast : Piece.char c ∈ (front ++ [Piece.char c]).getLast? := by simp
  have tightened := regapped_tightened (fun _ _ => BothInert.noOperator) (fun _ _ => not_rangeEdge)
    (quoted_pieces t)
  rw [whole, List.append_cons] at tightened
  obtain ⟨front₁, gap₁, behind₁, whole₁, inFront, isLast₁, blanks₁, kept₁, same₁⟩ :=
    tightened.cut_gap isLast noBlank blanks noBlank' inert
  have noColumn : d.isDigit = true → ¬AbsoluteColumn front₁ := fun digit column =>
    noReference digit (inFront.absoluteColumn isLast noBlank column)
  obtain ⟨front₂, behind₂, whole₂, isLast₂, same₂, same₂'⟩ :
      ∃ front' behind', replaceAll absoluteColumnReference? (front₁ ++ (gap₁ ++ .char d :: behind₁))
        = front' ++ (gap₁ ++ .char d :: behind') ∧ .char c ∈ front'.getLast? ∧
          solid front' = solid front₁ ∧ solid behind' = solid behind₁ :=
    exists_gap_columns isLast₁ inert noBlank blanks₁ (fun none => nonempty (kept₁.1 none)) noBlank'
      noColumn
  have trimmed := regapped_trimmedRows (front₂ ++ (gap₁ ++ .char d :: behind₂))
  obtain ⟨front₃, gap₃, behind₃, whole₃, inFront₃, isLast₃, blanks₃, kept₃, same₃⟩ :=
    trimmed.cut_gap isLast₂ noBlank blanks₁ noBlank' inert
  obtain ⟨front', rfl⟩ := List.getLast?_eq_some_iff.1 isLast₃
  have padded : SheetFormula.pieces (Text.spaced t) =
      front' ++ .char c :: (gap₃ ++ .char d :: behind₃) := by
    rw [pieces_spaced, spacedPieces_eq, whole, List.append_cons, whole₁, whole₂, whole₃]
    simp
  have solids : solid (front' ++ [.char c]) = solid (front ++ [.char c]) := by
    rw [inFront₃.solid_eq, same₂, inFront.solid_eq]
  rw [solid_append, solid_append] at solids
  exact ⟨front', gap₃, behind₃, padded, blanks₃, fun none => nonempty (kept₁.1 (kept₃.1 none)),
    List.append_cancel_right solids, same₃.trans (same₂'.trans same₁)⟩

/-- Behind an absolute column too, what begins with a letter stays apart. -/
theorem exists_gap_spaced_ranges :
    (SheetFormula.pieces "$A:$A B1:C5".toList =
        "$A:$".toList.map .char ++ .char 'A' :: ([.char ' '] ++ .char 'B' ::
          "1:C5".toList.map .char)) ∧
      ∃ front' gap' behind', SheetFormula.pieces (Text.spaced "$A:$A B1:C5".toList) =
          front' ++ .char 'A' :: (gap' ++ .char 'B' :: behind') ∧
        (∀ p ∈ gap', p.isBlank = true) ∧ gap' ≠ [] ∧
          solid front' = solid ("$A:$".toList.map .char) ∧
            solid behind' = solid ("1:C5".toList.map .char) := by
  have whole : SheetFormula.pieces "$A:$A B1:C5".toList =
      "$A:$".toList.map .char ++ .char 'A' :: ([.char ' '] ++ .char 'B' ::
        "1:C5".toList.map .char) := by decide +kernel
  exact ⟨whole, exists_gap_spaced whole (by decide) (by decide) (by decide +kernel)
    (by decide +kernel) fun digit => absurd digit (by decide)⟩

/-- Rows behind an absolute column are put together with it. -/
theorem spaced_column_rows :
    (SheetFormula.pieces "$A:$A 1:5".toList =
        "$A:$".toList.map .char ++ .char 'A' :: ([.char ' '] ++ .char '1' ::
          ":5".toList.map .char)) ∧
      isNameChar 'A' = true ∧ isNameChar '1' = true ∧
        Text.spaced "$A:$A 1:5".toList = "$A:$A1:5".toList ∧
          ∀ p ∈ SheetFormula.pieces (Text.spaced "$A:$A 1:5".toList), p.isBlank = false := by
  decide +kernel

end Text

end SheetFormula
