import SheetFormula.Proofs.Reading.Completed

/-!
# Operators that belong to a token

Whether a character joins the pending token is told by the token and the next character alone
(`Mark.joins_of_standaloneOperator?`). Most next characters are alike: only an equals sign could
make an operator of an exclamation mark, and only a number or a reference holds a sign or a colon
back (`Joins.before`).

## Main definitions

* `Joins` — the ways in which a character joins the pending token
-/

namespace SheetFormula

/-- A digit or a point. -/
def Text.startsNumber (c : Char) : Bool :=
  c.isDigit || c == '.'

/-- No reference and no number begins with a character of an operator. -/
theorem Operator.noReference_of_mem {op : Operator} {c : Char} (met : c ∈ op.lexeme) :
    Text.isReferencePart c = false ∧ Text.startsNumber c = false := by
  have all : op.lexeme.all (fun c => !Text.isReferencePart c && !Text.startsNumber c) = true := by
    cases op <;> decide
  simpa using List.all_eq_true.1 all c met

/-! ## The ways to join -/

/-- The ways in which a character joins the pending token, given the next character. -/
inductive Joins (afterOperand : Bool) (pending : Text) (c : Char) (next : Option Char) : Prop where
  /-- No operator begins here. -/
  | plain (noOperator : ∀ op : Operator, op.lexeme ≠ [c]) (apart : c = '!' → next ≠ some '=')
  /-- The colon of a range. -/
  | range (isColon : c = ':') (visible : Text.trim pending ≠ [])
      (touches : pending.getLast?.any Text.isBlank = false)
      (reference : next.any Text.isReferencePart = true)
  /-- The sign of an exponent. -/
  | exponent (isSign : c = '+' ∨ c = '-') (awaits : Text.awaitsExponent pending = true)
  /-- The sign of a number. -/
  | number (isSign : c = '+' ∨ c = '-') (blank : Text.trim pending = [])
      (noOperand : afterOperand = false) (number : next.any Text.startsNumber = true)

section Joins

variable {afterOperand : Bool} {pending : Text} {c : Char} {next other : Option Char}

/-- Another next character makes no difference, unless it completes an operator, or the one before
was needed for a number or a reference. -/
theorem Joins.before (joins : Joins afterOperand pending c next)
    (noNumber : next.any Text.startsNumber = false)
    (reference : next.any Text.isReferencePart = true → other.any Text.isReferencePart = true)
    (apart : c = '!' → other ≠ some '=') : Joins afterOperand pending c other := by
  cases joins with
  | plain noOperator => exact .plain noOperator apart
  | range isColon visible touches isReference =>
    exact .range isColon visible touches (reference isReference)
  | exponent isSign awaits => exact .exponent isSign awaits
  | number _ _ _ number =>
    rw [noNumber] at number
    cases number

/-- An operator that joins a token is a colon or a sign. -/
theorem joins_of_joinsToken {op : Operator} {t : Text}
    (begins : op.lexeme.isPrefixOf (c :: t) = true)
    (token : joinsToken op afterOperand pending next = true) :
    op.width = 1 ∧ Joins afterOperand pending c next := by
  have first : ∀ d, op.lexeme = [d] → c = d := by
    intro d single
    rw [single] at begins
    obtain ⟨rest, whole⟩ := List.isPrefixOf_iff_prefix.1 begins
    exact (List.cons.inj whole).1.symm
  have sign : (Text.awaitsExponent pending || ((Text.trim pending).isEmpty && !afterOperand &&
      next.any Text.startsNumber)) = true → c = '+' ∨ c = '-' →
        Joins afterOperand pending c next := by
    intro kinds isSign
    rw [Bool.or_eq_true, Bool.and_eq_true, Bool.and_eq_true, Bool.not_eq_true'] at kinds
    rcases kinds with awaits | ⟨⟨blank, noOperand⟩, number⟩
    · exact .exponent isSign awaits
    · exact .number isSign (List.isEmpty_iff.1 blank) noOperand number
  cases op with
  | range =>
    rw [joinsToken, Bool.and_eq_true, Bool.and_eq_true, Bool.not_eq_true', Bool.not_eq_true']
      at token
    refine ⟨rfl, .range (first ':' rfl) (fun empty => ?_) token.1.2 token.2⟩
    rw [empty] at token
    cases token.1.1
  | plus => exact ⟨rfl, sign token (.inl (first '+' rfl))⟩
  | minus => exact ⟨rfl, sign token (.inr (first '-' rfl))⟩
  | _ => cases token

end Joins

namespace Mark

variable {afterOperand : Bool} {pending : Text} {mark : Mark} {rest : List Mark} {c : Char}

/-- A character that stands first among the marks begins their text. -/
theorem head?_sourceText_of_char? {d : Char} (isNext : rest.head?.bind char? = some d) :
    (sourceText (rest.take 1)).head? = some d := by
  cases rest with
  | nil => cases isNext
  | cons m rest =>
    have isChar : m.char? = some d := isNext
    rw [List.take_succ_cons, sourceText_cons, piece_of_char? isChar]
    rfl

/-- Conversely, only a literal begins with a quote. -/
theorem char?_of_head?_sourceText (genuine : AllGenuine rest) {d : Char} (noQuote : d ≠ '"')
    (first : (sourceText (rest.take 1)).head? = some d) : rest.head?.bind char? = some d := by
  cases rest with
  | nil => cases first
  | cons m rest =>
    have single : sourceText ((m :: rest).take 1) = m.piece.text := List.append_nil _
    rw [single] at first
    show m.char? = some d
    cases isPiece : m.piece with
    | char e =>
      rw [isPiece] at first
      exact (char?_char isPiece).trans first
    | literal text closed =>
      have quote := genuine.head.quote_of_literal text closed isPiece
      rw [isPiece] at first
      exact absurd (Option.some.inj (first.symm.trans quote)) noQuote

theorem standaloneOperator?_char (isChar : mark.piece = .char c) :
    standaloneOperator? afterOperand pending (mark :: rest) =
      (Operator.atStart? (c :: sourceText (rest.take 1))).filter fun op =>
        !joinsToken op afterOperand pending
          (((mark :: rest).drop op.width).head?.bind char?) := by
  have begins : sourceText ((mark :: rest).take 2) = c :: sourceText (rest.take 1) := by
    rw [List.take_succ_cons, sourceText_cons, isChar]
    rfl
  rw [standaloneOperator?, begins]

/-- A character that begins no operator that stands by itself joins the token. -/
theorem joins_of_standaloneOperator? (isChar : mark.piece = .char c)
    (none : standaloneOperator? afterOperand pending (mark :: rest) = none) :
    Joins afterOperand pending c (rest.head?.bind char?) := by
  rw [standaloneOperator?_char isChar] at none
  cases found : Operator.atStart? (c :: sourceText (rest.take 1)) with
  | none =>
    obtain ⟨noOperator, noEqual⟩ := Operator.atStart?_eq_none_iff.1 found
    exact .plain noOperator fun isMark => mt head?_sourceText_of_char? (noEqual isMark)
  | some op =>
    rw [found, Option.filter_some] at none
    have token : joinsToken op afterOperand pending
        (((mark :: rest).drop op.width).head?.bind char?) = true := by
      simpa using none
    have begins := List.find?_some found
    obtain ⟨width, joins⟩ := joins_of_joinsToken begins token
    rwa [width] at joins

/-- Conversely, no operator that stands by itself begins with a character that joins. -/
theorem standaloneOperator?_eq_none (isChar : mark.piece = .char c) (genuine : AllGenuine rest)
    (joins : Joins afterOperand pending c (rest.head?.bind char?)) :
    standaloneOperator? afterOperand pending (mark :: rest) = none := by
  rw [standaloneOperator?_char isChar]
  have belongs : ∀ op : Operator, op.lexeme = [c] → op ∉ [.less, .greater, .equal] →
      joinsToken op afterOperand pending (rest.head?.bind char?) = true →
      (Operator.atStart? (c :: sourceText (rest.take 1))).filter (fun op =>
        !joinsToken op afterOperand pending
          (((mark :: rest).drop op.width).head?.bind char?)) = none := by
    intro op single alone token
    have found := op.atStart?_lexeme (t := sourceText (rest.take 1))
      fun listed => absurd listed alone
    have behind : (mark :: rest).drop op.width = rest := by rw [Operator.width, single]; rfl
    rw [single, List.singleton_append] at found
    rw [found, Option.filter_some, behind, token]
    rfl
  cases joins with
  | plain noOperator noEqual =>
    have apart : c = '!' → (sourceText (rest.take 1)).head? ≠ some '=' := fun isMark =>
      mt (char?_of_head?_sourceText genuine (by decide)) (noEqual isMark)
    rw [Operator.atStart?_eq_none_iff.2 ⟨noOperator, apart⟩]
    rfl
  | range isColon visible touches reference =>
    obtain rfl := isColon
    exact belongs .range rfl (by decide) (by simp [joinsToken, visible, touches, reference])
  | exponent isSign awaits =>
    rcases isSign with rfl | rfl
    · exact belongs .plus rfl (by decide) (by simp [joinsToken, awaits])
    · exact belongs .minus rfl (by decide) (by simp [joinsToken, awaits])
  | number isSign blank noOperand number =>
    have starts : (rest.head?.bind char?).any (fun c => c.isDigit || c == '.') = true := number
    rcases isSign with rfl | rfl
    · exact belongs .plus rfl (by decide) (by simp [joinsToken, blank, noOperand, starts])
    · exact belongs .minus rfl (by decide) (by simp [joinsToken, blank, noOperand, starts])

/-! ## Marks that join -/

section Values

variable {separator : Separator} {lead ms : List Mark}

/-- Marks whose characters join the token one after the other are read into it. -/
theorem value_read_joins (genuine : AllGenuine (ms ++ rest))
    (layout : ∀ m ∈ ms, m.isLayout = m.piece.satisfies Text.isBlank)
    (noOpening : ∀ m ∈ ms, m.char? ≠ some '(')
    (joins : ∀ ⦃front c behind⦄, ms.map piece = front ++ .char c :: behind →
      Joins afterOperand (pending ++ textOf front) c
        (behind.head?.elim (rest.head?.bind char?) Piece.char?)) :
    (read separator afterOperand pending (ms ++ rest)).value =
      (read separator afterOperand (pending ++ sourceText ms) rest).value := by
  induction ms generalizing pending with
  | nil => rw [sourceText_nil, List.append_nil, List.nil_append]
  | cons m ms ih =>
    obtain ⟨isLayout, others⟩ := List.forall_mem_cons.1 layout
    obtain ⟨noParenthesis, more⟩ := List.forall_mem_cons.1 noOpening
    have behind : (read separator afterOperand (pending ++ m.piece.text) (ms ++ rest)).value =
        (read separator afterOperand (pending ++ sourceText (m :: ms)) rest).value := by
      rw [ih genuine.tail others more fun front c behind cut => ?_, List.append_assoc,
        ← sourceText_cons]
      have split : (m :: ms).map piece = (m.piece :: front) ++ .char c :: behind := by
        rw [List.map_cons, cut]
        rfl
      have joins := joins split
      rwa [textOf_cons, ← List.append_assoc] at joins
    cases isPiece : m.piece with
    | literal text closed =>
      rw [isPiece] at behind
      rw [List.cons_append, read_literal isPiece]
      exact behind
    | char c =>
      rw [isPiece] at behind isLayout
      have noConnector : ¬(m.isLayout && Text.isConnector c) = true := by
        rw [isLayout, Bool.and_eq_true]
        rintro ⟨blank, connector⟩
        rw [Text.isConnector_of_isBlank blank] at connector
        cases connector
      have split : (m :: ms).map piece = [] ++ .char c :: ms.map piece := by
        rw [List.map_cons, isPiece]
        rfl
      have first := joins split
      rw [textOf, List.flatMap_nil, List.append_nil] at first
      have next : (ms.map piece).head?.elim (rest.head?.bind char?) Piece.char? =
          (ms ++ rest).head?.bind char? := by
        cases ms <;> rfl
      rw [next] at first
      have joins : standaloneOperator? afterOperand pending (m :: (ms ++ rest)) = none :=
        standaloneOperator?_eq_none isPiece genuine.tail first
      have other : c ≠ '(' := fun isOpening =>
        noParenthesis (char?_char (isOpening ▸ isPiece))
      rw [List.cons_append, read_char isPiece other noConnector joins]
      exact behind

/-- Layout in front joins the token as blanks. -/
theorem exists_read_layout (genuine : AllGenuine (lead ++ ms))
    (layout : ∀ m ∈ lead, m.isLayout = true) (afterOperand : Bool) (pending : Text) :
    ∃ blanks : Text, (∀ c ∈ blanks, Text.isBlank c = true) ∧
      read separator afterOperand pending (lead ++ ms) =
        read separator afterOperand (pending ++ blanks) ms := by
  induction lead generalizing pending with
  | nil => exact ⟨[], fun _ met => absurd met List.not_mem_nil, by rw [List.append_nil]; rfl⟩
  | cons m lead ih =>
    obtain ⟨isLayout, others⟩ := List.forall_mem_cons.1 layout
    obtain ⟨c, isChar, kind⟩ := genuine.head.of_layout isLayout
    have idle := kind.elim Text.idle_of_isBlank Text.idle_of_isConnector
    have noOpening : c ≠ '(' := fun isOpening =>
      genuine.head.char?_ne_of_layout isLayout (by decide) (by decide)
        (char?_char (isOpening ▸ isChar))
    by_cases connector : Text.isConnector c = true
    · obtain ⟨blanks, all, same⟩ := ih genuine.tail others (pending ++ [' '])
      refine ⟨' ' :: blanks, List.forall_mem_cons.2 ⟨by decide, all⟩, ?_⟩
      rw [List.cons_append, read_connector isChar noOpening (by rw [isLayout, connector]; rfl),
        same, List.append_assoc, List.singleton_append]
    · obtain ⟨blanks, all, same⟩ := ih genuine.tail others (pending ++ [c])
      refine ⟨c :: blanks, List.forall_mem_cons.2 ⟨kind.resolve_right connector, all⟩, ?_⟩
      have joins : standaloneOperator? afterOperand pending (m :: (lead ++ ms)) = none := by
        refine standaloneOperator?_eq_none isChar genuine.tail
          (.plain (fun op single => idle.noLexeme op (single ▸ List.mem_cons_self)) ?_)
        rintro rfl
        exact absurd List.mem_cons_self (idle.noLexeme .bangEqual)
      rw [List.cons_append, read_char isChar noOpening (by simp [connector]) joins, same,
        List.append_assoc, List.singleton_append]

/-- The characters of an operator are read as it, if it belongs to no token and is no shorter than
what begins here. -/
theorem value_read_lexeme {op : Operator} (isLexeme : ms.map piece = op.lexeme.map Piece.char)
    (genuine : AllGenuine (ms ++ rest))
    (ends : op ∈ [.less, .greater, .equal] →
      rest.head?.bind char? ≠ some '=' ∧ rest.head?.bind char? ≠ some '>')
    (stands : joinsToken op afterOperand pending (rest.head?.bind char?) = false) :
    (read separator afterOperand pending (ms ++ rest)).value =
      tokenLeaf pending ++ .operator op :: (read separator false [] rest).value := by
  have size : ms.length = op.width := by
    rw [← List.length_map piece, isLexeme, List.length_map, Operator.width]
  have text : sourceText ms = op.lexeme := by rw [sourceText, isLexeme, textOf_chars]
  have begins : sourceText ((ms ++ rest).take 2) =
      op.lexeme ++ sourceText (rest.take (2 - op.width)) := by
    have short : ms.take 2 = ms := by
      refine List.take_of_length_le ?_
      rcases op.width_eq with width | width <;> omega
    rw [List.take_append, short, size, sourceText_append, text]
  have found : Operator.atStart? (sourceText ((ms ++ rest).take 2)) = some op := by
    rw [begins]
    refine op.atStart?_lexeme fun single d first => ?_
    have width : op.width = 1 := by
      simp only [List.mem_cons, List.not_mem_nil, or_false] at single
      rcases single with rfl | rfl | rfl <;> rfl
    rw [width] at first
    have behind := (allGenuine_append.1 genuine).2
    constructor
    · rintro rfl
      exact (ends single).1 (char?_of_head?_sourceText behind (by decide) first)
    · rintro rfl
      exact (ends single).2 (char?_of_head?_sourceText behind (by decide) first)
  have standalone : standaloneOperator? afterOperand pending (ms ++ rest) = some op := by
    rw [standaloneOperator?, found, Option.filter_some, List.drop_append, ← size, List.drop_length,
      Nat.sub_self, List.drop_zero, List.nil_append, stands]
    rfl
  cases ms with
  | nil => rcases op.width_eq with width | width <;> (rw [width] at size; cases size)
  | cons m ms =>
    obtain ⟨c, more, lexeme, isChar, -⟩ := List.map_eq_cons_iff.1 isLexeme.symm
    have met : c ∈ op.lexeme := lexeme ▸ List.mem_cons_self
    obtain ⟨⟨-, noOpening, -⟩, noConnector, -⟩ := Operator.lexeme_spelling met
    have behind : (ms ++ rest).drop (op.width - 1) = rest := by
      rw [← size, List.length_cons, Nat.add_sub_cancel, List.drop_left]
    rw [List.cons_append] at standalone ⊢
    rw [read_operator isChar.symm noOpening (by simp [noConnector]) standalone, behind]
    rfl

end Values

end Mark

end SheetFormula
