import SheetFormula.Proofs.Format.Signs
import SheetFormula.Proofs.Reading.Divided
import SheetFormula.Proofs.Reading.Joins

/-!
# Leaves at their places

Every operator inside a leaf joined the token when it was read, in front of whatever stood there.
What is laid out behind the leaf later on is another text, but it is one as good: a space, the first
character of an operator or a parenthesis, or the name of the same call
(`Mark.joinedRow_read`). The one exception is an exclamation mark that comes to stand in front of
`==`.

## Main definitions

* `Text.Joined` — tokens all of whose characters join
* `Expression.JoinedRow` — parts in a row with such leaves
-/

namespace SheetFormula

open Piece (Proper)

/-! ## Tokens -/

/-- Every character of the text outside its literals joins the token in front of it, with a certain
character behind the text. -/
def Text.Joined (afterOperand : Bool) (t : Text) (next : Option Char) : Prop :=
  ∀ ⦃front c behind⦄, pieces t = front ++ .char c :: behind →
    Joins afterOperand (textOf front) c (behind.head?.elim next Piece.char?)

section Tokens

variable {afterOperand : Bool} {lead front trail t u : Text} {c : Char} {next other : Option Char}
  {p : Piece}

theorem Text.awaitsExponent_blanks (blanks : ∀ c ∈ lead, isBlank c = true) (t : Text) :
    awaitsExponent (lead ++ t) = awaitsExponent t := by
  have gap : Piece.Blanks (lead.map .char) := List.forall_mem_map.2 blanks
  have same := awaitsExponent_gap gap t
  rwa [textOf_chars] at same

/-- Blanks in front of the token make no difference. -/
theorem joins_blanks (blanks : ∀ c ∈ lead, Text.isBlank c = true) :
    Joins afterOperand (lead ++ front) c next ↔ Joins afterOperand front c next := by
  have trimmed : Text.trim (lead ++ front) = Text.trim front := by
    have same := trimEnds_append blanks (fun _ met => absurd met List.not_mem_nil) front
    rwa [List.append_nil] at same
  have last : Text.trim front ≠ [] → (lead ++ front).getLast? = front.getLast? := by
    intro visible
    cases front with
    | nil => exact absurd rfl visible
    | cons d front =>
      rw [List.getLast?_append, List.getLast?_cons]
      rfl
  constructor
  · rintro (⟨noOperator, apart⟩ | ⟨isColon, visible, touches, reference⟩ | ⟨isSign, awaits⟩ |
      ⟨isSign, blank, noOperand, number⟩)
    · exact .plain noOperator apart
    · rw [trimmed] at visible
      exact .range isColon visible (last visible ▸ touches) reference
    · exact .exponent isSign (Text.awaitsExponent_blanks blanks front ▸ awaits)
    · exact .number isSign (trimmed ▸ blank) noOperand number
  · rintro (⟨noOperator, apart⟩ | ⟨isColon, visible, touches, reference⟩ | ⟨isSign, awaits⟩ |
      ⟨isSign, blank, noOperand, number⟩)
    · exact .plain noOperator apart
    · exact .range isColon (trimmed.symm ▸ visible) ((last visible).symm ▸ touches) reference
    · exact .exponent isSign ((Text.awaitsExponent_blanks blanks front).symm ▸ awaits)
    · exact .number isSign (trimmed.symm ▸ blank) noOperand number

namespace Text

theorem joined_nil : Joined afterOperand [] next := by
  intro front c behind split
  rw [SheetFormula.pieces] at split
  cases front <;> cases split

/-- The text may stand in front of another character. -/
theorem Joined.before (joined : t.Joined afterOperand next)
    (noNumber : next.any startsNumber = false)
    (reference : next.any isReferencePart = true → other.any isReferencePart = true)
    (apart : t.getLast? = some '!' → other ≠ some '=') : t.Joined afterOperand other := by
  intro front c behind split
  cases behind with
  | cons => exact joined split
  | nil =>
    refine (joined split).before noNumber reference fun isMark => apart ?_
    rw [← textOf_pieces t, split, textOf_append, isMark]
    exact List.getLast?_concat

/-- A piece more, if it is what stood behind the text, and joins. -/
theorem Joined.concat (joined : t.Joined afterOperand p.char?)
    (whole : SheetFormula.pieces u = SheetFormula.pieces t ++ [p])
    (last : ∀ c, p = .char c → Joins afterOperand t c other) : u.Joined afterOperand other := by
  intro front c behind split
  rw [whole] at split
  rcases List.eq_nil_or_concat behind with rfl | ⟨behind, q, rfl⟩
  · obtain ⟨rfl, isLast⟩ := List.append_inj' split rfl
    rw [textOf_pieces]
    exact last c (List.singleton_inj.1 isLast)
  · rw [List.concat_eq_append, ← List.cons_append, ← List.append_assoc] at split
    obtain ⟨inside, isLast⟩ := List.append_inj' split rfl
    obtain rfl := List.singleton_inj.1 isLast
    have joins := joined inside
    cases behind with
    | nil => exact joins
    | cons => exact joins

/-- A part of the text, without the blanks in front of it. -/
theorem Joined.inner (joined : t.Joined afterOperand next)
    (whole : SheetFormula.pieces t = lead.map .char ++ SheetFormula.pieces u ++ trail.map .char)
    (blanks : ∀ c ∈ lead, isBlank c = true) : u.Joined afterOperand (trail.head?.or next) := by
  intro front c behind split
  have inside : SheetFormula.pieces t =
      (lead.map .char ++ front) ++ .char c :: (behind ++ trail.map .char) := by
    rw [whole, split]
    simp
  have joins := joined inside
  rw [textOf_append, textOf_chars, joins_blanks blanks] at joins
  cases behind with
  | cons => exact joins
  | nil =>
    cases trail with
    | nil => exact joins
    | cons => exact joins

/-- The token without the blanks around it, in front of another character. -/
theorem Joined.trimmed (joined : t.Joined afterOperand next) (closed : t.LiteralsClosed)
    (noNumber : next.any startsNumber = false)
    (reference : next.any isReferencePart = true → other.any isReferencePart = true)
    (apart : (trim t).getLast? = some '!' → other ≠ some '=') :
    (trim t).Joined afterOperand other := by
  obtain ⟨lead, trail, whole, leading, trailing⟩ := trimEnds_split isBlank t
  have core : (trim t).LiteralsClosed := (Holds.trim (t := t) ⟨closed, rfl⟩).closed
  have cut := pieces_frame core (fun met => ne_quote_of_isBlank (leading _ met) rfl)
    fun met => ne_quote_of_isBlank (trailing _ met) rfl
  rw [Text.trim, ← whole] at cut
  have inner := joined.inner cut leading
  refine inner.before ?_ ?_ apart
  · cases trail with
    | nil => exact noNumber
    | cons c trail =>
      have idle := idle_of_isBlank (trailing c List.mem_cons_self)
      simp [startsNumber, idle.noDigit, idle.ne_dot]
  · cases trail with
    | nil => exact reference
    | cons c trail =>
      have idle := idle_of_isBlank (trailing c List.mem_cons_self)
      simp [idle.noReference]

end Text

end Tokens

namespace FunctionName

variable {name capitals : Text}

/-- A known name begins with a letter. -/
theorem begins_of_mem_known (known : name ∈ FunctionName.known) :
    name.head?.any Text.isReferencePart = true ∧ name.head?.any Text.startsNumber = false := by
  have all : FunctionName.known.all (fun name => name.head?.any Text.isReferencePart &&
      !name.head?.any Text.startsNumber) = true := by
    decide +kernel
  simpa using List.all_eq_true.1 all name known

/-- Digits and points are their own capitals, so no name of a call begins with one. -/
theorem begins_of_canonical? (named : canonical? name = some capitals) :
    name.head?.any Text.startsNumber = false := by
  obtain ⟨known, rfl⟩ := canonical?_eq_some.1 named
  have begins := (begins_of_mem_known known).2
  cases name with
  | nil => rfl
  | cons c name =>
    cases starts : Text.startsNumber c with
    | false => exact starts
    | true =>
      have spelled : spells c.toNat = true := by
        rw [Text.startsNumber, Bool.or_eq_true, beq_iff_eq] at starts
        rcases starts with digit | rfl
        · have bounds : 48 ≤ c.toNat ∧ c.toNat ≤ 57 := by
            simpa [Char.isDigit, UInt32.le_iff_toNat_le] using digit
          simp [spells, bounds]
        · rfl
      rw [Text.uppercase, List.flatMap_cons, (spelling spelled).1] at begins
      exact absurd (starts.symm.trans begins) (by decide)

end FunctionName

/-! ## Parts in a row -/

namespace Expression

/-- The character that is laid out behind a leaf, in front of other parts, unless it is one that no
token is joined for. -/
def behindLeaf? : List Expression → Option Char
  | operator op :: _ => if op.takesSpaces then none else op.lexeme.head?
  | call name _ _ :: _ => name.head?
  | _ => none

/-- Parts in a row, given whether an operand stands in front of them. The operators inside a leaf
join it where it is laid out, if this brings no exclamation mark in front of an equals sign. -/
inductive JoinedRow : Bool → List Expression → Prop where
  | nil {afterOperand : Bool} : JoinedRow afterOperand []
  | leaf {afterOperand : Bool} {t : Text} {es : List Expression}
      (joined : (t.getLast? = some '!' → behindLeaf? es ≠ some '=') →
        t.Joined afterOperand (behindLeaf? es))
      (behind : ∀ operand, JoinedRow operand es) : JoinedRow afterOperand (plain t [] :: es)
  | group {afterOperand : Bool} {source : Text} {parts es : List Expression}
      (inside : JoinedRow false parts) (behind : JoinedRow true es) :
      JoinedRow afterOperand (group source parts :: es)
  | call {afterOperand : Bool} {name source : Text} {arguments es : List Expression}
      (each : ∀ a ∈ arguments, JoinedRow false a.row) (behind : JoinedRow true es) :
      JoinedRow afterOperand (call name source arguments :: es)
  | operator {afterOperand : Bool} {op : Operator} {es : List Expression}
      (behind : JoinedRow false es) : JoinedRow afterOperand (operator op :: es)

variable {afterOperand : Bool} {pending : Text} {next : Option Char} {es : List Expression}

/-- A token may stand in front of what follows it. -/
theorem JoinedRow.token (joined : pending.Joined afterOperand next)
    (closed : pending.LiteralsClosed) (noNumber : next.any Text.startsNumber = false)
    (reference : next.any Text.isReferencePart = true →
      (behindLeaf? es).any Text.isReferencePart = true)
    (behind : ∀ operand, JoinedRow operand es) :
    JoinedRow afterOperand (tokenLeaf pending ++ es) := by
  unfold tokenLeaf
  split
  · exact behind afterOperand
  · exact .leaf (joined.trimmed closed noNumber reference) behind

end Expression

namespace Mark

open Expression

/-- A pending token whose characters join, with the marks behind it. -/
structure JoinedToken (afterOperand : Bool) (pending : Text) (ms : List Mark) : Prop where
  proper : Proper (joined pending ms)
  joins : pending.Joined afterOperand (ms.head?.bind char?)

section Steps

variable {afterOperand : Bool} {pending : Text} {mark : Mark} {ms ns rest : List Mark} {c : Char}

theorem JoinedToken.fresh (token : JoinedToken afterOperand pending ms) (within : ns <:+: ms)
    (operand : Bool) : JoinedToken operand [] ns :=
  ⟨proper_fresh token.proper within, Text.joined_nil⟩

theorem JoinedToken.literal {text : Text} {closed : Bool}
    (token : JoinedToken afterOperand pending (mark :: rest))
    (isLiteral : mark.piece = .literal text closed) :
    JoinedToken afterOperand (pending ++ text) rest := by
  have whole := pieces_join token.proper
  have proper := token.proper
  rw [← joined_append token.proper] at proper
  have joins : Text.Joined _ _ (rest.head?.bind char?) :=
    Text.Joined.concat token.joins whole fun c isChar => by rw [isLiteral] at isChar; cases isChar
  rw [isLiteral] at proper joins
  exact ⟨proper, joins⟩

theorem JoinedToken.char (token : JoinedToken afterOperand pending (mark :: rest))
    (isChar : mark.piece = .char c)
    (joins : Joins afterOperand pending c (rest.head?.bind char?)) :
    JoinedToken afterOperand (pending ++ [c]) rest := by
  have whole := pieces_join token.proper
  have proper := token.proper
  rw [← joined_append token.proper] at proper
  have all : Text.Joined _ _ (rest.head?.bind char?) :=
    Text.Joined.concat token.joins whole fun d isPiece => by
      rw [isChar] at isPiece
      cases isPiece
      exact joins
  rw [isChar] at proper all
  exact ⟨proper, all⟩

/-- A connector that is layout joins the token as a space. -/
theorem JoinedToken.space (token : JoinedToken afterOperand pending (mark :: rest))
    (isChar : mark.piece = .char c) (connector : Text.isConnector c = true) :
    JoinedToken afterOperand (pending ++ [' ']) rest := by
  have cut : pieces ([] ++ pending ++ [' ']) = [] ++ pieces pending ++ [.char ' '] :=
    Text.pieces_frame (holds_token token.proper).closed (by decide) (by decide)
  have idle := Text.idle_of_isConnector connector
  have isNext : ((mark :: rest).head?.bind Mark.char?) = some c := char?_char isChar
  have joins := token.joins
  rw [isNext] at joins
  have inFront : pending.Joined afterOperand (Piece.char ' ').char? := by
    refine joins.before ?_ ?_ fun _ => by decide
    · simp [Text.startsNumber, idle.noDigit, idle.ne_dot]
    · simp [idle.noReference]
  refine ⟨(joined_space token.proper isChar).1, inFront.concat cut ?_⟩
  rintro d ⟨⟩
  exact .plain (fun op => by cases op <;> decide) fun isMark => absurd isMark (by decide)

/-- What stands in front of a name is a token by itself, which the name follows. -/
theorem JoinedToken.name {name : Text} (token : JoinedToken afterOperand pending ms)
    (known : FunctionName.canonical? (Text.cutBeforeName pending).2 = some name) :
    (Text.cutBeforeName pending).1.LiteralsClosed ∧ ∃ next : Option Char,
      (Text.cutBeforeName pending).1.Joined afterOperand next ∧
        next.any Text.startsNumber = false := by
  have front := (holds_token token.proper).cutBeforeName
  have noQuote : '"' ∉ (Text.cutBeforeName pending).2 := fun met =>
    (Text.isNameChar_spelling (all_takeEndWhile pending _ met)).1 rfl
  have whole : pieces ([] ++ (Text.cutBeforeName pending).1 ++ (Text.cutBeforeName pending).2) =
      ([] : Text).map .char ++ pieces (Text.cutBeforeName pending).1 ++
        (Text.cutBeforeName pending).2.map .char :=
    Text.pieces_frame front.closed List.not_mem_nil noQuote
  rw [List.nil_append, Text.cutBeforeName, dropEndWhile_append_takeEndWhile] at whole
  have inner := token.joins.inner whole fun _ met => absurd met List.not_mem_nil
  refine ⟨front.closed, _, inner, ?_⟩
  have noNumber := FunctionName.begins_of_canonical? known
  rw [Text.cutBeforeName] at known noNumber
  cases word : takeEndWhile Text.isNameChar pending with
  | nil =>
    rw [word, FunctionName.canonical?_nil] at known
    cases known
  | cons c word =>
    rw [word] at noNumber
    exact noNumber

/-- A token that is followed by an operator or a parenthesis. -/
theorem JoinedToken.row {es : List Expression}
    (token : JoinedToken afterOperand pending (mark :: rest)) (isChar : mark.piece = .char c)
    (noNumber : Text.startsNumber c = false) (noReference : Text.isReferencePart c = false)
    (behind : ∀ operand, JoinedRow operand es) :
    JoinedRow afterOperand (tokenLeaf pending ++ es) := by
  have isNext : ((mark :: rest).head?.bind Mark.char?) = some c := char?_char isChar
  have joins := token.joins
  rw [isNext] at joins
  exact .token joins (holds_token token.proper).closed noNumber
    (fun reference => absurd (noReference.symm.trans reference) (by decide)) behind

end Steps

/-- Whatever is read, the operators inside the leaves join them where they are laid out. -/
theorem joinedRow_read {separator : Separator} {ms : List Mark} (afterOperand : Bool)
    (pending : Text) (readable : Readable ms) (token : JoinedToken afterOperand pending ms) :
    JoinedRow afterOperand (read separator afterOperand pending ms).value := by
  revert token
  refine read_induction separator
    (motive := fun afterOperand pending ms => JoinedToken afterOperand pending ms →
      JoinedRow afterOperand (read separator afterOperand pending ms).value)
    ?nil ?literal ?connector ?operator ?char ?call ?group afterOperand pending readable
  case nil =>
    intro afterOperand pending token
    rw [read_nil, Transcript.value_pure, ← List.append_nil (tokenLeaf pending)]
    exact .token token.joins (holds_token token.proper).closed rfl (fun none => by cases none)
      fun _ => .nil
  case literal =>
    intro afterOperand pending mark rest text closed _ isLiteral ih token
    rw [read_literal isLiteral]
    exact ih (token.literal isLiteral)
  case connector =>
    intro afterOperand pending mark rest c _ isChar noOpening connector ih token
    rw [read_connector isChar noOpening connector]
    exact ih (token.space isChar (Bool.and_eq_true_iff.1 connector).2)
  case operator =>
    intro afterOperand pending mark rest c op _ isChar noOpening noConnector standalone isLexeme _
      ih token
    have met : c ∈ op.lexeme := by
      have isPiece : Piece.char c ∈ op.lexeme.map Piece.char := by
        rw [← isLexeme, ← isChar]
        exact List.mem_cons_self
      obtain ⟨d, met, same⟩ := List.mem_map.1 isPiece
      exact Piece.char.inj same ▸ met
    obtain ⟨noReference, noNumber⟩ := Operator.noReference_of_mem met
    rw [read_operator isChar noOpening noConnector standalone, Transcript.value_bind,
      Transcript.value_pure]
    exact token.row isChar noNumber noReference fun _ =>
      .operator (ih (token.fresh (drop_isInfix mark rest _) false))
  case char =>
    intro afterOperand pending mark rest c readable isChar noOpening _ noConnector joins ih token
    rw [read_char isChar noOpening noConnector joins]
    exact ih (token.char isChar (joins_of_standaloneOperator? isChar joins))
  case call =>
    intro afterOperand pending opening inside tail name _ isOpening insideReadable closes _ known
      ihArguments ihTail token
    have insideToken := token.fresh (inside_isInfix opening inside tail) false
    have behind := ihTail (token.fresh (tail_isInfix opening inside tail) true)
    obtain ⟨closed, next, joined, noNumber⟩ := token.name known
    have reference := (FunctionName.begins_of_mem_known
      (FunctionName.canonical?_eq_some.1 known).1).1
    rw [value_read_call isOpening insideReadable closes known]
    refine .token joined closed noNumber (fun _ => reference) fun _ =>
      .call (List.forall_mem_map.2 fun part isPart => ?_) behind
    have partReadable := insideReadable.of_mem_argumentParts isPart
    have partToken := insideToken.fresh
      (isInfix_of_mem_argumentParts insideReadable.enclosed isPart) false
    rw [row_readArgument partReadable]
    exact ihArguments part isPart
      (partToken.fresh (trimmed_isInfix (closed_of_proper partToken.proper)) false)
  case group =>
    intro afterOperand pending opening inside tail _ isOpening insideReadable closes _ unknown
      ihInside ihTail token
    rw [value_read_group isOpening insideReadable closes unknown]
    exact token.row isOpening (by decide) (by decide) fun _ =>
      .group (ihInside (token.fresh (inside_isInfix opening inside tail) false))
        (ihTail (token.fresh (tail_isInfix opening inside tail) true))

end Mark

end SheetFormula
