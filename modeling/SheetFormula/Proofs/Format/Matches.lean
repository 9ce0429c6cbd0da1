import SheetFormula.Proofs.Format.Gaps
import SheetFormula.Proofs.Text.Characters

/-!
# What the rules match

A rule about references looks for a word of solid pieces, with blanks allowed between some of them,
and takes the blanks away (`Rule.Spelt`). The rules about signs look for a minus with blanks behind
it. Here every rule is opened, once.

## Main definitions

* `Piece.Spells` — pieces that begin with a word, with gaps where its pieces may part
* `Rule.Spelt` — rules that look for words
* `Piece.IsColumnWord`, `Piece.IsRowWord`, `Piece.IsRangeWord` — the words of references
-/

namespace SheetFormula

open Piece

/-! ## Parts of a rule -/

namespace Piece

variable {p q : Piece} {ps qs rest gap dollar : List Piece} {class' : Char → Bool}

theorem satisfies_beq {c : Char} : p.satisfies (· == c) = true ↔ p = .char c := by
  cases p <;> simp [satisfies, char?]

/-- The class has no blanks. -/
def Visible (class' : Char → Bool) : Prop :=
  ∀ ⦃p : Piece⦄, p.satisfies class' = true → p.isBlank = false

theorem visible_of_blanks (none : ∀ c, Text.isBlank c = true → class' c = false) :
    Visible class' := by
  intro p met
  cases p with
  | literal => rfl
  | char c =>
    by_contra blank
    have noMember : class' c = false := none c (by rwa [Bool.not_eq_false] at blank)
    have member : class' c = true := met
    rw [noMember] at member
    cases member

theorem visible_letter : Visible Char.isAlpha :=
  visible_of_blanks fun _ => Text.isBlank_induction (P := fun c => c.isAlpha = false) (by decide)

theorem visible_digit : Visible Char.isDigit :=
  visible_of_blanks fun _ => Text.isBlank_induction (P := fun c => c.isDigit = false) (by decide)

theorem visible_dollar : Visible (· == '$') :=
  visible_of_blanks fun _ => Text.isBlank_induction (P := fun c => (c == '$') = false) (by decide)

theorem visible_referencePart : Visible Text.isReferencePart :=
  visible_of_blanks fun _ =>
    Text.isBlank_induction (P := fun c => Text.isReferencePart c = false) (by decide)

theorem Visible.of_blank (visible : Visible class') (blank : p.isBlank = true) :
    p.satisfies class' = false := by
  by_contra met
  rw [visible (by simpa using met)] at blank
  cases blank

theorem not_letter_of_digit (digit : p.satisfies Char.isDigit = true) :
    p.satisfies Char.isAlpha = false := by
  cases p with
  | literal => rfl
  | char c =>
    have isDigit : c.isDigit = true := digit
    have upTo : c.val ≤ '9'.val := of_decide_eq_true (Bool.and_eq_true_iff.1 isDigit).2
    show c.isAlpha = false
    by_contra letter
    rw [Bool.not_eq_false] at letter
    rcases Bool.or_eq_true_iff.1 letter with upper | lower
    · have range : c.val ≥ 'A'.val ∧ c.val ≤ 'Z'.val := of_decide_eq_true upper
      exact absurd (UInt32.le_trans range.1 upTo) (by decide)
    · have start : c.val ≥ 'a'.val := of_decide_eq_true (Bool.and_eq_true_iff.1 lower).1
      exact absurd (UInt32.le_trans start upTo) (by decide)

theorem not_dollar_of_digit (digit : p.satisfies Char.isDigit = true) :
    p.satisfies (· == '$') = false := by
  by_contra isDollar
  rw [Bool.not_eq_false, satisfies_beq] at isDollar
  rw [isDollar] at digit
  cases digit

theorem skipBlanks_gap (blanks : Blanks gap) (noBlank : ∀ p ∈ ps.head?, p.isBlank = false) :
    skipBlanks (gap ++ ps) = ps := by
  rw [skipBlanks, List.dropWhile_append_of_pos blanks]
  cases ps with
  | nil => rfl
  | cons p ps => rw [List.dropWhile_cons_of_neg (by simp [noBlank p rfl])]

theorem exists_gap (ps : List Piece) : ∃ gap, Blanks gap ∧ ps = gap ++ skipBlanks ps :=
  ⟨ps.takeWhile Piece.isBlank, fun _ met => List.mem_takeWhile_imp met,
    List.takeWhile_append_dropWhile.symm⟩

theorem head_skipBlanks (ps : List Piece) :
    ∀ p ∈ (skipBlanks ps).head?, p.isBlank = false := by
  intro p isFirst
  have stopped := List.head?_dropWhile_not Piece.isBlank ps
  rw [← skipBlanks, Option.mem_def.1 isFirst] at stopped
  exact stopped

theorem one?_eq_some_iff :
    one? class' ps = some (q, rest) ↔ ps = q :: rest ∧ q.satisfies class' = true := by
  cases ps with
  | nil => simp [one?]
  | cons p ps =>
    rw [one?]
    split
    · next met =>
      simp only [Option.some.injEq, Prod.mk.injEq, List.cons.injEq]
      exact ⟨fun same => ⟨same, same.1 ▸ met⟩, And.left⟩
    · next other =>
      simp only [List.cons.injEq, reduceCtorEq, false_iff]
      rintro ⟨⟨rfl, -⟩, met⟩
      exact other met

/-- Some pieces, all of a class. -/
def Run (class' : Char → Bool) (ps : List Piece) : Prop :=
  ps ≠ [] ∧ ∀ p ∈ ps, p.satisfies class' = true

/-- No piece of a class follows. -/
def Stops (class' : Char → Bool) (ps : List Piece) : Prop :=
  ∀ p ∈ ps.head?, p.satisfies class' = false

theorem run?_eq_some_iff :
    run? class' ps = some (qs, rest) ↔ Run class' qs ∧ ps = qs ++ rest ∧ Stops class' rest := by
  rw [run?]
  constructor
  · intro found
    split at found
    · cases found
    · next some =>
      cases found
      refine ⟨⟨fun none => some (List.isEmpty_iff.2 none), fun q met => List.mem_takeWhile_imp met⟩,
        List.takeWhile_append_dropWhile.symm, fun p isNext => ?_⟩
      have stopped := List.head?_dropWhile_not (·.satisfies class') ps
      rw [Option.mem_def.1 isNext] at stopped
      exact stopped
  · rintro ⟨⟨some, all⟩, rfl, stops⟩
    have front : (qs ++ rest).takeWhile (·.satisfies class') = qs := by
      rw [List.takeWhile_append_of_pos all]
      cases rest with
      | nil => simp
      | cons r rest => rw [List.takeWhile_cons_of_neg (by simp [stops r rfl]), List.append_nil]
    have behind : (qs ++ rest).dropWhile (·.satisfies class') = rest := by
      rw [List.dropWhile_append_of_pos all]
      cases rest with
      | nil => rfl
      | cons r rest => rw [List.dropWhile_cons_of_neg (by simp [stops r rfl])]
    rw [front, behind, if_neg fun none => some (List.isEmpty_iff.1 none)]

/-- A dollar or nothing. -/
def Dollar (ps : List Piece) : Prop :=
  ps = [] ∨ ps = [.char '$']

theorem optionalDollar_spec (ps : List Piece) : Dollar (optionalDollar ps).1 ∧
    ps = (optionalDollar ps).1 ++ (optionalDollar ps).2 := by
  cases ps with
  | nil => exact ⟨.inl rfl, rfl⟩
  | cons p ps =>
    rw [optionalDollar]
    split
    · next isDollar => exact ⟨.inr (by rw [satisfies_beq.1 isDollar]), rfl⟩
    · exact ⟨.inl rfl, rfl⟩

theorem optionalDollar_eq (isDollar : Dollar dollar) (stops : Stops (· == '$') ps) :
    optionalDollar (dollar ++ ps) = (dollar, ps) := by
  rcases isDollar with rfl | rfl
  · cases ps with
    | nil => rfl
    | cons p ps => rw [List.nil_append, optionalDollar, if_neg (by simp [stops p rfl])]
  · rfl

/-! ## Words with gaps -/

/-- Pieces begin with a word of solid pieces, where close neighbours have no gap between them. What
follows the word is the rest. -/
inductive Spells (close : Piece → Piece → Bool) : List Piece → List Piece → List Piece → Prop where
  | last {p : Piece} {rest : List Piece} (noBlank : p.isBlank = false) :
      Spells close [p] (p :: rest) rest
  | next {p q : Piece} {w gap ps rest : List Piece} (noBlank : p.isBlank = false)
      (blanks : Blanks gap) (tight : close p q = true → gap = [])
      (behind : Spells close (q :: w) (q :: ps) rest) :
      Spells close (p :: q :: w) (p :: (gap ++ q :: ps)) rest

namespace Spells

variable {close : Piece → Piece → Bool} {u v w mid : List Piece}

theorem head?_eq (spells : Spells close w ps rest) : ps.head? = w.head? := by
  cases spells <;> rfl

theorem ne_nil (spells : Spells close w ps rest) : w ≠ [] := by
  cases spells <;> exact List.cons_ne_nil _ _

theorem isBlank (spells : Spells close w ps rest) : ∀ p ∈ w, p.isBlank = false := by
  induction spells with
  | last noBlank => exact List.forall_mem_singleton.2 noBlank
  | next noBlank _ _ _ ih => exact List.forall_mem_cons.2 ⟨noBlank, ih⟩

theorem head_isBlank (spells : Spells close w ps rest) : ∀ p ∈ ps.head?, p.isBlank = false := by
  rw [spells.head?_eq]
  exact fun p isFirst => spells.isBlank p (List.mem_of_head? isFirst)

/-- A word spells itself. -/
theorem refl (some : w ≠ []) (noBlank : ∀ p ∈ w, p.isBlank = false) (rest : List Piece) :
    Spells close w (w ++ rest) rest := by
  induction w with
  | nil => exact absurd rfl some
  | cons p w ih =>
    obtain ⟨first, others⟩ := List.forall_mem_cons.1 noBlank
    cases w with
    | nil => exact .last first
    | cons q w =>
      show Spells close (p :: q :: w) (p :: ([] ++ q :: (w ++ rest))) rest
      exact .next first blanks_nil (fun _ => rfl) (ih (List.cons_ne_nil q w) others)

/-- A second word goes on behind a gap. -/
theorem append (first : Spells close u ps (gap ++ mid)) (second : Spells close v mid rest)
    (blanks : Blanks gap)
    (tight : ∀ p ∈ u.getLast?, ∀ q ∈ v.head?, close p q = true → gap = []) :
    Spells close (u ++ v) ps rest := by
  generalize whole : gap ++ mid = behind at first
  induction first with
  | @last p behind noBlank =>
    obtain ⟨q, v, rfl⟩ := List.exists_cons_of_ne_nil second.ne_nil
    obtain ⟨ps, rfl⟩ := List.head?_eq_some_iff.1 second.head?_eq
    exact whole ▸ .next noBlank blanks (tight p rfl q rfl) second
  | next noBlank own ownTight _ ih =>
    exact .next noBlank own ownTight (ih (by simpa using tight) whole)

/-- A word of two parts is spelt part by part. -/
theorem of_append (some : u ≠ []) (some' : v ≠ []) (spells : Spells close (u ++ v) ps rest) :
    ∃ gap mid, Spells close u ps (gap ++ mid) ∧ Blanks gap ∧
      (∀ p ∈ u.getLast?, ∀ q ∈ v.head?, close p q = true → gap = []) ∧
      Spells close v mid rest := by
  induction u generalizing ps with
  | nil => exact absurd rfl some
  | cons p u ih =>
    cases u with
    | nil =>
      obtain ⟨q, v, rfl⟩ := List.exists_cons_of_ne_nil some'
      cases spells with
      | next noBlank blanks tight behind =>
        refine ⟨_, _, .last noBlank, blanks, ?_, behind⟩
        rintro p' ⟨⟩ q' ⟨⟩
        exact tight
    | cons q u =>
      cases spells with
      | next noBlank own ownTight behind =>
        obtain ⟨gap, mid, first, blanks, tight, second⟩ := ih (List.cons_ne_nil q u) behind
        exact ⟨gap, mid, .next noBlank own ownTight first, blanks, by simpa using tight, second⟩

/-- A word of close neighbours is spelt without gaps. -/
theorem eq_append (spells : Spells close w ps rest)
    (chain : w.IsChain fun p q => close p q = true) : ps = w ++ rest := by
  induction spells with
  | last => rfl
  | next _ _ tight _ ih =>
    obtain ⟨first, others⟩ := List.isChain_cons_cons.1 chain
    rw [tight first, List.nil_append, ih others]
    rfl

end Spells

/-! ## Words of references -/

theorem Run.head? (run : Run class' ps) : ∀ p ∈ ps.head?, p.satisfies class' = true :=
  fun p isFirst => run.2 p (List.mem_of_head? isFirst)

theorem Run.getLast? (run : Run class' ps) : ∀ p ∈ ps.getLast?, p.satisfies class' = true :=
  fun p isLast => run.2 p (List.mem_of_getLast? isLast)

theorem Run.spells (run : Run class' ps) (visible : Visible class')
    {close : Piece → Piece → Bool} (rest : List Piece) : Spells close ps (ps ++ rest) rest :=
  .refl run.1 (fun p met => visible (run.2 p met)) rest

theorem Run.isChain (run : Run class' ps) {close : Piece → Piece → Prop}
    (all : ∀ p q : Piece, p.satisfies class' = true → q.satisfies class' = true → close p q) :
    ps.IsChain close :=
  (List.pairwise_of_forall_mem_list fun p isFirst q isSecond =>
    all p q (run.2 p isFirst) (run.2 q isSecond)).isChain

/-- A gap stops a run of solid pieces. -/
theorem stops_gap (visible : Visible class') (blanks : Blanks gap) (stops : Stops class' ps) :
    Stops class' (gap ++ ps) := by
  cases gap with
  | nil => exact stops
  | cons b gap =>
    rintro p ⟨⟩
    exact visible.of_blank (blanks_cons.1 blanks).1

theorem Run.stops {other : Char → Bool} (run : Run class' ps)
    (apart : ∀ p : Piece, p.satisfies class' = true → p.satisfies other = false)
    (rest : List Piece) : Stops other (ps ++ rest) := by
  intro p isFirst
  rw [List.head?_append_of_ne_nil _ run.1] at isFirst
  exact apart p (run.head? p isFirst)

/-- Two letters, or two digits. -/
def sameKind (p q : Piece) : Bool :=
  p.satisfies Char.isAlpha && q.satisfies Char.isAlpha ||
    p.satisfies Char.isDigit && q.satisfies Char.isDigit

/-- Two characters of references. -/
def sameReference (p q : Piece) : Bool :=
  p.satisfies Text.isReferencePart && q.satisfies Text.isReferencePart

/-- A character of references, or the colon between two of them. -/
def isWordPart (p : Piece) : Bool :=
  p.satisfies fun c => Text.isReferencePart c || c == ':'

/-- Two parts of a word. -/
def WordParts (p q : Piece) : Prop :=
  p.isWordPart = true ∧ q.isWordPart = true

/-- Two parts of a word of which one is a colon. -/
def RangeEdge (p q : Piece) : Prop :=
  (p = .char ':' ∨ q = .char ':') ∧ WordParts p q

/-- Two parts of a word of which one is a dollar. -/
def RowEdge (p q : Piece) : Prop :=
  (p = .char '$' ∨ q = .char '$') ∧ WordParts p q

/-- Two parts of a word of which one is a dollar, or a letter and a digit. -/
def ColumnEdge (p q : Piece) : Prop :=
  RowEdge p q ∨ p.satisfies Char.isAlpha = true ∧ q.satisfies Char.isDigit = true

/-- A dollar, letters, perhaps a dollar, and digits. -/
def IsColumnWord (w : List Piece) : Prop :=
  ∃ letters dollar digits, Run Char.isAlpha letters ∧ Dollar dollar ∧ Run Char.isDigit digits ∧
    w = [.char '$'] ++ (letters ++ (dollar ++ digits))

/-- Letters, a dollar, and digits. -/
def IsRowWord (w : List Piece) : Prop :=
  ∃ letters digits, Run Char.isAlpha letters ∧ Run Char.isDigit digits ∧
    w = letters ++ ([.char '$'] ++ digits)

/-- Letters, perhaps a dollar, and digits. -/
def IsCell (w : List Piece) : Prop :=
  ∃ letters dollar digits, Run Char.isAlpha letters ∧ Dollar dollar ∧ Run Char.isDigit digits ∧
    w = letters ++ (dollar ++ digits)

/-- A cell, a colon, perhaps a dollar, and a cell. -/
def IsRangeWord (w : List Piece) : Prop :=
  ∃ left dollar right, IsCell left ∧ Dollar dollar ∧ IsCell right ∧
    w = left ++ ([.char ':'] ++ (dollar ++ right))

end Piece

/-- The rule looks for words that end in digits, and takes the gaps away. No digit follows. Where
two pieces of a word are not close, there may be a gap between them, and such a pair is an edge. -/
structure Rule.Spelt (rule : Rule) (close : Piece → Piece → Bool) (edge : Piece → Piece → Prop)
    (word : List Piece → Prop) : Prop where
  match_iff : ∀ {ps qs rest}, rule ps = some (qs, rest) ↔
    word qs ∧ Spells close qs ps rest ∧ Stops Char.isDigit rest
  getLast? : ∀ {w}, word w → ∀ p ∈ w.getLast?, p.satisfies Char.isDigit = true
  isChain : ∀ {w}, word w → w.IsChain fun p q => close p q = true ∨ edge p q
  digits : ∀ {p q : Piece}, p.satisfies Char.isDigit = true → q.satisfies Char.isDigit = true →
    close p q = true

section Words

variable {p q : Piece} {ps qs rest gap dollar digits mid : List Piece}
  {close : Piece → Piece → Bool}

theorem sameKind_of_letters (first : p.satisfies Char.isAlpha = true)
    (second : q.satisfies Char.isAlpha = true) : sameKind p q = true := by
  rw [sameKind, first, second]
  rfl

theorem sameKind_of_digits (first : p.satisfies Char.isDigit = true)
    (second : q.satisfies Char.isDigit = true) : sameKind p q = true := by
  rw [sameKind, first, second]
  exact Bool.or_true _

@[simp] theorem sameKind_dollar_left : sameKind (.char '$') q = false := rfl

@[simp] theorem sameKind_dollar_right : sameKind p (.char '$') = false := by
  rw [sameKind]
  exact (congrArg₂ or (Bool.and_false _) (Bool.and_false _))

theorem sameKind_letter_digit (first : p.satisfies Char.isAlpha = true)
    (second : q.satisfies Char.isDigit = true) : sameKind p q = false := by
  have noDigit : p.satisfies Char.isDigit = false := by
    by_contra digit
    rw [not_letter_of_digit (by simpa using digit)] at first
    cases first
  rw [sameKind, noDigit, not_letter_of_digit second, Bool.and_false, Bool.false_and]
  rfl

theorem Piece.Run.chain_letters {letters : List Piece} (run : Run Char.isAlpha letters) :
    letters.IsChain fun p q => sameKind p q = true :=
  run.isChain fun _ _ => sameKind_of_letters

theorem Piece.Run.chain_digits {digits : List Piece} (run : Run Char.isDigit digits) :
    digits.IsChain fun p q => sameKind p q = true :=
  run.isChain fun _ _ => sameKind_of_digits

theorem referencePart_of_letter (letter : p.satisfies Char.isAlpha = true) :
    p.satisfies Text.isReferencePart = true := by
  cases p with
  | literal => cases letter
  | char c =>
    have isLetter : c.isAlpha = true := letter
    show Text.isReferencePart c = true
    rw [Text.isReferencePart, Char.isAlphanum, isLetter]
    rfl

theorem referencePart_of_digit (digit : p.satisfies Char.isDigit = true) :
    p.satisfies Text.isReferencePart = true := by
  cases p with
  | literal => cases digit
  | char c =>
    have isDigit : c.isDigit = true := digit
    show Text.isReferencePart c = true
    rw [Text.isReferencePart, Char.isAlphanum, isDigit, Bool.or_true]
    rfl

theorem isWordPart_of_reference (part : p.satisfies Text.isReferencePart = true) :
    p.isWordPart = true := by
  cases p with
  | literal => cases part
  | char c =>
    have isPart : Text.isReferencePart c = true := part
    show (Text.isReferencePart c || c == ':') = true
    rw [isPart]
    rfl

theorem rowEdge_left (part : p.satisfies Text.isReferencePart = true) : RowEdge p (.char '$') :=
  ⟨.inr rfl, isWordPart_of_reference part, rfl⟩

theorem rowEdge_right (part : q.satisfies Text.isReferencePart = true) : RowEdge (.char '$') q :=
  ⟨.inl rfl, rfl, isWordPart_of_reference part⟩

theorem rangeEdge_left (part : p.satisfies Text.isReferencePart = true) :
    RangeEdge p (.char ':') :=
  ⟨.inr rfl, isWordPart_of_reference part, rfl⟩

theorem rangeEdge_right (part : q.satisfies Text.isReferencePart = true) :
    RangeEdge (.char ':') q :=
  ⟨.inl rfl, rfl, isWordPart_of_reference part⟩

/-- Letters, a dollar and digits, with gaps beside the dollar. -/
theorem absoluteRowReference?_eq_some_iff : absoluteRowReference? ps = some (qs, rest) ↔
    IsRowWord qs ∧ Spells sameKind qs ps rest ∧ Stops Char.isDigit rest := by
  simp only [absoluteRowReference?, Option.bind_eq_bind, Option.bind_eq_some_iff, Prod.exists]
  constructor
  · rintro ⟨letters, behind, isLetters, d, next, isDollar, digits, rest', isDigits, same⟩
    obtain ⟨rfl, rfl⟩ := Prod.mk.inj (Option.some.inj same)
    obtain ⟨letterRun, rfl, -⟩ := run?_eq_some_iff.1 isLetters
    obtain ⟨gap, blanks, whole⟩ := exists_gap behind
    obtain ⟨behindGap, isDollar⟩ := one?_eq_some_iff.1 isDollar
    obtain rfl := satisfies_beq.1 isDollar
    obtain ⟨gap', blanks', whole'⟩ := exists_gap next
    obtain ⟨digitRun, behindGap', stops⟩ := run?_eq_some_iff.1 isDigits
    rw [behindGap, whole', behindGap'] at whole
    have row : Spells sameKind ([.char '$'] ++ digits) _ rest' :=
      (Spells.last rfl).append (digitRun.spells visible_digit rest') blanks' (by simp)
    refine ⟨⟨letters, digits, letterRun, digitRun, rfl⟩, ?_, stops⟩
    rw [whole]
    exact (letterRun.spells visible_letter _).append row blanks (by simp)
  · rintro ⟨⟨letters, digits, letterRun, digitRun, rfl⟩, spells, stops⟩
    obtain ⟨gap, mid, first, blanks, -, second⟩ := spells.of_append letterRun.1 (by simp)
    obtain ⟨gap', mid', dollar, blanks', -, third⟩ := second.of_append (by simp) digitRun.1
    obtain rfl := third.eq_append digitRun.chain_digits
    obtain rfl := dollar.eq_append (.singleton _)
    obtain rfl := first.eq_append letterRun.chain_letters
    refine ⟨letters, _, run?_eq_some_iff.2 ⟨letterRun, rfl, ?_⟩, .char '$', _,
      one?_eq_some_iff.2 ⟨skipBlanks_gap blanks second.head_isBlank, rfl⟩, digits, rest,
      run?_eq_some_iff.2 ⟨digitRun, skipBlanks_gap blanks' third.head_isBlank, stops⟩, by simp⟩
    exact stops_gap visible_letter blanks (by rintro _ ⟨⟩; rfl)

theorem spelt_absoluteRow : Rule.Spelt absoluteRowReference? sameKind RowEdge IsRowWord where
  match_iff := absoluteRowReference?_eq_some_iff
  getLast? := by
    rintro _ ⟨letters, digits, -, digitRun, rfl⟩ p isLast
    refine digitRun.getLast? p ?_
    rwa [List.getLast?_append_of_ne_nil _ (by simp), List.getLast?_append_of_ne_nil _ digitRun.1]
      at isLast
  isChain := by
    rintro _ ⟨letters, digits, letterRun, digitRun, rfl⟩
    refine List.isChain_append.2 ⟨letterRun.chain_letters.imp fun _ _ => .inl,
      List.isChain_append.2 ⟨.singleton _, digitRun.chain_digits.imp fun _ _ => .inl, ?_⟩, ?_⟩
    · rintro _ ⟨⟩ q isFirst
      exact .inr (rowEdge_right (referencePart_of_digit (digitRun.head? q isFirst)))
    · rintro p isLast _ ⟨⟩
      exact .inr (rowEdge_left (referencePart_of_letter (letterRun.getLast? p isLast)))
  digits := sameKind_of_digits

/-- A dollar, if there is one, belongs to the word behind it. -/
theorem Piece.Spells.with_dollar {w : List Piece} (isDollar : Dollar dollar)
    (spells : Spells close w mid rest) (blanks : Blanks gap)
    (apart : ∀ q ∈ w.head?, close (.char '$') q = true → gap = []) :
    ∃ gap' mid', dollar ++ (gap ++ mid) = gap' ++ mid' ∧ Blanks gap' ∧
      Spells close (dollar ++ w) mid' rest := by
  rcases isDollar with rfl | rfl
  · exact ⟨gap, mid, rfl, blanks, spells⟩
  · have word : Spells close ([.char '$'] ++ w) (.char '$' :: (gap ++ mid)) rest :=
      (Spells.last rfl).append spells blanks (by rintro p ⟨⟩; exact apart)
    exact ⟨[], _, rfl, blanks_nil, word⟩

theorem Piece.Spells.of_dollar {w : List Piece} (isDollar : Dollar dollar) (some : w ≠ [])
    (spells : Spells close (dollar ++ w) ps rest) :
    ∃ gap mid, ps = dollar ++ (gap ++ mid) ∧ Blanks gap ∧
      (∀ p ∈ dollar.getLast?, ∀ q ∈ w.head?, close p q = true → gap = []) ∧
      Spells close w mid rest := by
  rcases isDollar with rfl | rfl
  · exact ⟨[], ps, rfl, blanks_nil, fun _ _ _ _ _ => rfl, spells⟩
  · obtain ⟨gap, mid, first, blanks, tight, second⟩ := spells.of_append (by simp) some
    exact ⟨gap, mid, first.eq_append (.singleton _), blanks, tight, second⟩

/-- Letters and the row of a reference are not of the same kind. -/
theorem parted_row (isDollar : Dollar dollar) (digitRun : Run Char.isDigit digits)
    (letter : p.satisfies Char.isAlpha = true) (isFirst : q ∈ (dollar ++ digits).head?) :
    sameKind p q = false := by
  rcases isDollar with rfl | rfl
  · exact sameKind_letter_digit letter (digitRun.head? q isFirst)
  · cases isFirst
    exact sameKind_dollar_right

/-- A dollar, letters, perhaps a dollar, and digits, with gaps between them. -/
theorem absoluteColumnReference?_eq_some_iff : absoluteColumnReference? ps = some (qs, rest) ↔
    IsColumnWord qs ∧ Spells sameKind qs ps rest ∧ Stops Char.isDigit rest := by
  simp only [absoluteColumnReference?, Option.bind_eq_bind, Option.bind_eq_some_iff, Prod.exists]
  constructor
  · rintro ⟨d, behind, isDollar, letters, next, isLetters, digits, rest', isDigits, same⟩
    obtain ⟨rfl, rfl⟩ := Prod.mk.inj (Option.some.inj same)
    obtain ⟨rfl, first⟩ := one?_eq_some_iff.1 isDollar
    obtain rfl := satisfies_beq.1 first
    obtain ⟨gap, blanks, whole⟩ := exists_gap behind
    obtain ⟨letterRun, behindGap, -⟩ := run?_eq_some_iff.1 isLetters
    obtain ⟨gap', blanks', whole'⟩ := exists_gap next
    obtain ⟨isDollar', behindGap'⟩ := optionalDollar_spec (skipBlanks next)
    generalize optionalDollar (skipBlanks next) = second at *
    obtain ⟨gap'', blanks'', whole''⟩ := exists_gap second.2
    obtain ⟨digitRun, behindGap'', stops⟩ := run?_eq_some_iff.1 isDigits
    have rowSpells : Spells sameKind digits (digits ++ rest') rest' :=
      digitRun.spells visible_digit rest'
    obtain ⟨lead, row, cut, leadBlanks, spells⟩ := rowSpells.with_dollar isDollar' blanks''
      (by simp)
    refine ⟨⟨letters, _, digits, letterRun, isDollar', digitRun, by simp⟩, ?_, stops⟩
    have behindLetters : next = (gap' ++ lead) ++ row := by
      rw [List.append_assoc, ← cut, ← behindGap'', ← whole'', ← behindGap']
      exact whole'
    rw [whole, behindGap, behindLetters]
    have column : Spells sameKind (letters ++ (second.1 ++ digits))
        (letters ++ (gap' ++ lead ++ row)) rest' := by
      refine (letterRun.spells visible_letter _).append spells
        (blanks_append.2 ⟨blanks', leadBlanks⟩) fun p isLast q isFirst => ?_
      rw [parted_row isDollar' digitRun (letterRun.getLast? p isLast) isFirst]
      exact Bool.noConfusion
    have all : Spells sameKind ([.char '$'] ++ (letters ++ (second.1 ++ digits)))
        (.char '$' :: (gap ++ (letters ++ (gap' ++ lead ++ row)))) rest' :=
      (Spells.last rfl).append column blanks (by simp)
    simpa using all
  · rintro ⟨⟨letters, dollar, digits, letterRun, isDollar, digitRun, rfl⟩, spells, stops⟩
    obtain ⟨gap, mid, first, blanks, -, second⟩ := spells.of_append (by simp)
      (List.append_ne_nil_of_left_ne_nil letterRun.1 _)
    obtain ⟨gap', mid', third, blanks', -, fourth⟩ := second.of_append letterRun.1
      (List.append_ne_nil_of_right_ne_nil _ digitRun.1)
    obtain ⟨gap'', mid'', rfl, blanks'', -, fifth⟩ := fourth.of_dollar isDollar digitRun.1
    obtain rfl := fifth.eq_append digitRun.chain_digits
    obtain rfl := third.eq_append letterRun.chain_letters
    obtain rfl := first.eq_append (.singleton _)
    have isDigits : skipBlanks (gap'' ++ (digits ++ rest)) = digits ++ rest :=
      skipBlanks_gap blanks'' fifth.head_isBlank
    have isDollar' : optionalDollar (skipBlanks (gap' ++ (dollar ++ (gap'' ++ (digits ++ rest)))))
        = (dollar, gap'' ++ (digits ++ rest)) := by
      rw [skipBlanks_gap blanks' fourth.head_isBlank]
      exact optionalDollar_eq isDollar (stops_gap visible_dollar blanks''
        (digitRun.stops (fun _ => not_dollar_of_digit) rest))
    refine ⟨.char '$', _, one?_eq_some_iff.2 ⟨rfl, rfl⟩, letters, _,
      run?_eq_some_iff.2 ⟨letterRun, skipBlanks_gap blanks second.head_isBlank, ?_⟩, digits, rest,
      run?_eq_some_iff.2 ⟨digitRun, by rw [isDollar', isDigits], stops⟩, by
        rw [isDollar']; simp⟩
    refine stops_gap visible_letter blanks' ?_
    rcases isDollar with rfl | rfl
    · have behind := stops_gap visible_letter blanks''
        (digitRun.stops (fun _ => not_letter_of_digit) rest)
      exact behind
    · rintro _ ⟨⟩
      rfl

theorem spelt_absoluteColumn :
    Rule.Spelt absoluteColumnReference? sameKind ColumnEdge IsColumnWord where
  match_iff := absoluteColumnReference?_eq_some_iff
  getLast? := by
    rintro _ ⟨letters, dollar, digits, -, -, digitRun, rfl⟩ p isLast
    refine digitRun.getLast? p ?_
    rwa [← List.append_assoc, ← List.append_assoc, List.getLast?_append_of_ne_nil _ digitRun.1]
      at isLast
  isChain := by
    rintro _ ⟨letters, dollar, digits, letterRun, isDollar, digitRun, rfl⟩
    refine List.isChain_append.2 ⟨.singleton _, List.isChain_append.2
      ⟨letterRun.chain_letters.imp fun _ _ => .inl, List.isChain_append.2
        ⟨?_, digitRun.chain_digits.imp fun _ _ => .inl, ?_⟩, ?_⟩, ?_⟩
    · rcases isDollar with rfl | rfl <;> simp
    · intro p isLast q isFirst
      rcases isDollar with rfl | rfl
      · cases isLast
      · cases isLast
        exact .inr (.inl (rowEdge_right (referencePart_of_digit (digitRun.head? q isFirst))))
    · intro p isLast q isFirst
      rcases isDollar with rfl | rfl
      · exact .inr (.inr ⟨letterRun.getLast? p isLast, digitRun.head? q isFirst⟩)
      · cases isFirst
        exact .inr (.inl (rowEdge_left (referencePart_of_letter (letterRun.getLast? p isLast))))
    · rintro _ ⟨⟩ q isFirst
      rw [List.head?_append_of_ne_nil _ letterRun.1] at isFirst
      exact .inr (.inl (rowEdge_right (referencePart_of_letter (letterRun.head? q isFirst))))
  digits := sameKind_of_digits

theorem cellReference?_eq_some_iff : cellReference? ps = some (qs, rest) ↔
    IsCell qs ∧ ps = qs ++ rest ∧ Stops Char.isDigit rest := by
  simp only [cellReference?, Option.bind_eq_bind, Option.bind_eq_some_iff, Prod.exists]
  constructor
  · rintro ⟨letters, behind, isLetters, digits, rest', isDigits, same⟩
    obtain ⟨rfl, rfl⟩ := Prod.mk.inj (Option.some.inj same)
    obtain ⟨letterRun, rfl, -⟩ := run?_eq_some_iff.1 isLetters
    obtain ⟨isDollar, whole⟩ := optionalDollar_spec behind
    generalize optionalDollar behind = second at *
    obtain ⟨digitRun, behindDollar, stops⟩ := run?_eq_some_iff.1 isDigits
    refine ⟨⟨letters, second.1, digits, letterRun, isDollar, digitRun, by simp⟩, ?_, stops⟩
    rw [whole, behindDollar]
    simp
  · rintro ⟨⟨letters, dollar, digits, letterRun, isDollar, digitRun, rfl⟩, rfl, stops⟩
    have isDollar' : optionalDollar (dollar ++ (digits ++ rest)) = (dollar, digits ++ rest) :=
      optionalDollar_eq isDollar (digitRun.stops (fun _ => not_dollar_of_digit) rest)
    refine ⟨letters, dollar ++ (digits ++ rest), run?_eq_some_iff.2 ⟨letterRun, by simp, ?_⟩,
      digits, rest, run?_eq_some_iff.2 ⟨digitRun, by rw [isDollar'], stops⟩, by
        rw [isDollar']; simp⟩
    rcases isDollar with rfl | rfl
    · exact digitRun.stops (fun _ => not_letter_of_digit) rest
    · rintro _ ⟨⟩
      rfl

theorem Piece.Dollar.isReferencePart (isDollar : Dollar dollar) :
    ∀ p ∈ dollar, p.satisfies Text.isReferencePart = true := by
  rcases isDollar with rfl | rfl
  · exact fun _ met => absurd met List.not_mem_nil
  · exact List.forall_mem_singleton.2 rfl

/-- A cell is a run of characters of references. -/
theorem Piece.IsCell.run {cell : List Piece} (isCell : IsCell cell) :
    Run Text.isReferencePart cell := by
  obtain ⟨letters, dollar, digits, letterRun, isDollar, digitRun, rfl⟩ := isCell
  refine ⟨List.append_ne_nil_of_left_ne_nil letterRun.1 _, ?_⟩
  simp only [List.forall_mem_append]
  exact ⟨fun p met => referencePart_of_letter (letterRun.2 p met), isDollar.isReferencePart,
    fun p met => referencePart_of_digit (digitRun.2 p met)⟩

theorem sameReference_of_parts (first : p.satisfies Text.isReferencePart = true)
    (second : q.satisfies Text.isReferencePart = true) : sameReference p q = true := by
  rw [sameReference, first, second]
  rfl

/-- A dollar, if there is one, and a cell are a run of characters of references too. -/
theorem Piece.IsCell.run_dollar {cell : List Piece} (isCell : IsCell cell)
    (isDollar : Dollar dollar) : Run Text.isReferencePart (dollar ++ cell) :=
  ⟨List.append_ne_nil_of_right_ne_nil _ isCell.run.1,
    List.forall_mem_append.2 ⟨isDollar.isReferencePart, isCell.run.2⟩⟩

theorem Piece.IsCell.stops_dollar {cell : List Piece} (isCell : IsCell cell) (rest : List Piece) :
    Stops (· == '$') (cell ++ rest) := by
  obtain ⟨letters, dollar, digits, letterRun, -, -, rfl⟩ := isCell
  rw [List.append_assoc]
  refine letterRun.stops (fun p letter => ?_) _
  by_contra isDollar
  rw [Bool.not_eq_false, satisfies_beq] at isDollar
  rw [isDollar] at letter
  cases letter

/-- Two cells and a colon, with gaps beside the colon. -/
theorem tightRange?_eq_some_iff : tightRange? ps = some (qs, rest) ↔
    IsRangeWord qs ∧ Spells sameReference qs ps rest ∧ Stops Char.isDigit rest := by
  simp only [tightRange?, Option.bind_eq_bind, Option.bind_eq_some_iff, Prod.exists]
  constructor
  · rintro ⟨left, behind, isLeft, c, next, isColon, right, rest', isRight, same⟩
    obtain ⟨rfl, rfl⟩ := Prod.mk.inj (Option.some.inj same)
    obtain ⟨leftCell, rfl, -⟩ := cellReference?_eq_some_iff.1 isLeft
    obtain ⟨gap, blanks, whole⟩ := exists_gap behind
    obtain ⟨behindGap, isColon⟩ := one?_eq_some_iff.1 isColon
    obtain rfl := satisfies_beq.1 isColon
    obtain ⟨gap', blanks', whole'⟩ := exists_gap next
    obtain ⟨isDollar, behindGap'⟩ := optionalDollar_spec (skipBlanks next)
    generalize optionalDollar (skipBlanks next) = second at *
    obtain ⟨rightCell, behindDollar, stops⟩ := cellReference?_eq_some_iff.1 isRight
    refine ⟨⟨left, second.1, right, leftCell, isDollar, rightCell, by simp⟩, ?_, stops⟩
    have cell : Spells sameReference (second.1 ++ right) _ rest' :=
      (rightCell.run_dollar isDollar).spells visible_referencePart rest'
    have colon : Spells sameReference ([.char ':'] ++ (second.1 ++ right))
        (.char ':' :: (gap' ++ ((second.1 ++ right) ++ rest'))) rest' :=
      (Spells.last rfl).append cell blanks' (by rintro p ⟨⟩ q -; exact Bool.noConfusion)
    have range := (leftCell.run.spells visible_referencePart _).append colon blanks (by
      rintro p - q ⟨⟩
      rw [sameReference]
      simp [satisfies, char?, Text.isReferencePart])
    rw [whole, behindGap, whole', behindGap', behindDollar]
    simpa using range
  · rintro ⟨⟨left, dollar, right, leftCell, isDollar, rightCell, rfl⟩, spells, stops⟩
    have bound := rightCell.run_dollar isDollar
    obtain ⟨gap, mid, first, blanks, -, second⟩ := spells.of_append leftCell.run.1 (by simp)
    obtain ⟨gap', mid', third, blanks', -, fourth⟩ := second.of_append (by simp) bound.1
    obtain rfl := fourth.eq_append (bound.isChain fun _ _ => sameReference_of_parts)
    obtain rfl := third.eq_append (.singleton _)
    obtain rfl := first.eq_append (leftCell.run.isChain fun _ _ => sameReference_of_parts)
    have isDollar' : optionalDollar (skipBlanks (gap' ++ (dollar ++ right ++ rest))) =
        (dollar, right ++ rest) := by
      rw [skipBlanks_gap blanks' fourth.head_isBlank, List.append_assoc]
      exact optionalDollar_eq isDollar (rightCell.stops_dollar rest)
    refine ⟨left, _, cellReference?_eq_some_iff.2 ⟨leftCell, rfl, ?_⟩, .char ':',
      gap' ++ (dollar ++ right ++ rest),
      one?_eq_some_iff.2 ⟨skipBlanks_gap blanks second.head_isBlank, rfl⟩, right, rest,
      cellReference?_eq_some_iff.2 ⟨rightCell, by rw [isDollar'], stops⟩, by
        rw [isDollar']; simp⟩
    exact stops_gap visible_digit blanks (by rintro _ ⟨⟩; rfl)

theorem spelt_tightRange : Rule.Spelt tightRange? sameReference RangeEdge IsRangeWord where
  match_iff := tightRange?_eq_some_iff
  getLast? := by
    rintro _ ⟨left, dollar, _, -, -, ⟨letters, d, digits, -, -, digitRun, rfl⟩, rfl⟩ p isLast
    refine digitRun.getLast? p ?_
    simp only [← List.append_assoc] at isLast
    rwa [List.getLast?_append_of_ne_nil _ digitRun.1] at isLast
  isChain := by
    rintro _ ⟨left, dollar, right, leftCell, isDollar, rightCell, rfl⟩
    refine List.isChain_append.2
      ⟨leftCell.run.isChain fun _ _ first second => .inl (sameReference_of_parts first second),
        List.isChain_append.2 ⟨.singleton _, (rightCell.run_dollar isDollar).isChain
          fun _ _ first second => .inl (sameReference_of_parts first second), ?_⟩, ?_⟩
    · rintro _ ⟨⟩ q isFirst
      exact .inr (rangeEdge_right ((rightCell.run_dollar isDollar).head? q isFirst))
    · rintro p isLast _ ⟨⟩
      exact .inr (rangeEdge_left (leftCell.run.getLast? p isLast))
  digits first second :=
    sameReference_of_parts (referencePart_of_digit first) (referencePart_of_digit second)

end Words

/-! ## Signs -/

section Signs

variable {p : Piece} {ps qs rest : List Piece}

/-- A minus with blanks behind it, and then a digit. -/
theorem signedNumber?_eq_some_iff : signedNumber? ps = some (qs, rest) ↔
    ∃ gap gap' d, Blanks gap ∧ Blanks gap' ∧ gap' ≠ [] ∧ d.satisfies Char.isDigit = true ∧
      ps = gap ++ .char '-' :: (gap' ++ d :: rest) ∧ qs = [.char '-', d] := by
  simp only [signedNumber?, Option.bind_eq_bind, Option.bind_eq_some_iff, Prod.exists]
  constructor
  · rintro ⟨minus, behind, isMinus, b, more, isBlank, d, rest', isDigit, same⟩
    obtain ⟨rfl, rfl⟩ := Prod.mk.inj (Option.some.inj same)
    obtain ⟨gap, blanks, whole⟩ := exists_gap ps
    obtain ⟨behindGap, first⟩ := one?_eq_some_iff.1 isMinus
    obtain rfl := satisfies_beq.1 first
    obtain ⟨gap', blanks', whole'⟩ := exists_gap behind
    obtain ⟨behindGap', digit⟩ := one?_eq_some_iff.1 isDigit
    rw [behindGap, whole', behindGap'] at whole
    refine ⟨gap, gap', d, blanks, blanks', fun none => ?_, digit, whole, rfl⟩
    -- without a gap, the piece behind the minus would be a digit and a blank
    obtain ⟨rfl, blank⟩ := one?_eq_some_iff.1 isBlank
    rw [none, behindGap', List.nil_append] at whole'
    have noBlank := visible_digit digit
    rw [← (List.cons.inj whole').1, Piece.isBlank, blank] at noBlank
    cases noBlank
  · rintro ⟨gap, gap', d, blanks, blanks', some, digit, rfl, rfl⟩
    obtain ⟨b, more, rfl⟩ := List.exists_cons_of_ne_nil some
    refine ⟨.char '-', _, one?_eq_some_iff.2 ⟨skipBlanks_gap blanks (by rintro _ ⟨⟩; rfl), rfl⟩,
      b, _, one?_eq_some_iff.2 ⟨rfl, (blanks_cons.1 blanks').1⟩, d, rest,
      one?_eq_some_iff.2 ⟨skipBlanks_gap blanks' ?_, digit⟩, rfl⟩
    rintro _ ⟨⟩
    exact visible_digit digit

/-- Pieces behind which a minus is a sign. -/
def Piece.beforeSign (p : Piece) : Bool :=
  p.satisfies precedesSign || p.satisfies (· == '(')

theorem signedNumber?_skipBlanks (ps : List Piece) :
    signedNumber? (skipBlanks ps) = signedNumber? ps := by
  have same : skipBlanks (skipBlanks ps) = skipBlanks ps := List.dropWhile_idempotent _ _
  rw [signedNumber?, signedNumber?, same]

/-- A sign with blanks behind it that stands behind a piece where it can be one. -/
theorem signedOperand?_eq_some_iff : signedOperand? (p :: ps) = some (qs, rest) ↔
    p.beforeSign = true ∧ ∃ gap gap' d, Blanks gap ∧ Blanks gap' ∧ gap' ≠ [] ∧
      d.satisfies Char.isDigit = true ∧ ps = gap ++ .char '-' :: (gap' ++ d :: rest) ∧
      qs = p :: ((if p.satisfies precedesSign then gap else []) ++ [.char '-', d]) := by
  have lead : ∀ {gap behind : List Piece}, Blanks gap →
      (gap ++ .char '-' :: behind).takeWhile Piece.isBlank = gap := by
    intro gap behind blanks
    rw [List.takeWhile_append_of_pos blanks, List.takeWhile_cons_of_neg Bool.noConfusion,
      List.append_nil]
  rw [signedOperand?, Piece.beforeSign, signedNumber?_skipBlanks]
  cases precedes : p.satisfies precedesSign with
  | true =>
    rw [if_pos rfl, Option.map_eq_some_iff, Bool.true_or]
    constructor
    · rintro ⟨⟨number, behind⟩, isNumber, same⟩
      obtain ⟨rfl, rfl⟩ := Prod.mk.inj same
      obtain ⟨gap, gap', d, blanks, blanks', some, digit, rfl, rfl⟩ :=
        signedNumber?_eq_some_iff.1 isNumber
      exact ⟨rfl, gap, gap', d, blanks, blanks', some, digit, rfl, by simp [lead blanks]⟩
    · rintro ⟨-, gap, gap', d, blanks, blanks', some, digit, rfl, rfl⟩
      refine ⟨([.char '-', d], rest), signedNumber?_eq_some_iff.2
        ⟨gap, gap', d, blanks, blanks', some, digit, rfl, rfl⟩, by simp [lead blanks]⟩
  | false =>
    rw [if_neg Bool.noConfusion, Bool.false_or]
    split
    · next isOpening =>
      rw [isOpening, Option.map_eq_some_iff]
      constructor
      · rintro ⟨⟨number, behind⟩, isNumber, same⟩
        obtain ⟨rfl, rfl⟩ := Prod.mk.inj same
        obtain ⟨gap, gap', d, blanks, blanks', some, digit, rfl, rfl⟩ :=
          signedNumber?_eq_some_iff.1 isNumber
        exact ⟨rfl, gap, gap', d, blanks, blanks', some, digit, rfl, rfl⟩
      · rintro ⟨-, gap, gap', d, blanks, blanks', some, digit, rfl, rfl⟩
        exact ⟨([.char '-', d], rest), signedNumber?_eq_some_iff.2
          ⟨gap, gap', d, blanks, blanks', some, digit, rfl, rfl⟩, rfl⟩
    · next other => simp [other]

end Signs

end SheetFormula
