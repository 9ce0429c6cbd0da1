import SheetFormula.Proofs.Format.Unbroken
import SheetFormula.Proofs.Reading.Joins
import SheetFormula.Proofs.Reading.Nodes

/-!
# Signs inside leaves

A leaf of an accepted formula holds no operators but signs of exponents, the sign of a number that
it begins with, and lone exclamation marks (`Formula.signedToken_of_leaf`). So padding puts blanks
beside the first sign only, and takes them away again if that is a minus in front of a digit: no
gap of such a leaf gets longer (`Formula.regapped_leaf`).

## Main definitions

* `Piece.Held` — operators that stay in the pending token
* `Text.Signed`, `Text.SignedToken` — tokens without other operators
* `Piece.Change.tightens` — gaps that get no longer
-/

namespace SheetFormula

open Piece

variable {p q : Piece} {ps qs front behind gap gap' before after : List Piece} {t : Text}

/-! ## Operators of a token -/

/-- A plus or a minus. -/
def Piece.isSign (p : Piece) : Bool :=
  p.satisfies fun c => c == '+' || c == '-'

/-- A digit or a point. -/
def Piece.startsNumber (p : Piece) : Bool :=
  p.satisfies fun c => c.isDigit || c == '.'

/-- What an operator may be to stay in a token, from the pieces in front of it and behind it: an
exclamation mark, the sign of an exponent, or with blanks only in front of it that of a number. -/
def Piece.Held (front : List Piece) (p : Piece) (behind : List Piece) : Prop :=
  p = .char '!' ∨ p.isSign = true ∧ (Text.awaitsExponent (textOf front) = true ∨
    Blanks front ∧ ∀ q ∈ behind.head?, q.startsNumber = true)

/-- All operators of the text are such, with certain pieces behind the text. -/
def Text.Signed (t : Text) (after : List Piece) : Prop :=
  ∀ ⦃front p behind⦄, SheetFormula.pieces t = front ++ p :: behind → p.isOperator = true →
    Held front p (behind ++ after)

/-- A token with closed literals only and such operators. -/
structure Text.SignedToken (t : Text) : Prop where
  closed : t.LiteralsClosed
  trimmed : Text.trim t = t
  signed : t.Signed []

namespace Text

/-- Blanks in front make no difference to an exponent. -/
theorem awaitsExponent_gap (blanks : Blanks gap) (t : Text) :
    awaitsExponent (textOf gap ++ t) = awaitsExponent t := by
  have run : takeEndWhile isNumeralChar (textOf gap ++ t) = takeEndWhile isNumeralChar t := by
    induction gap with
    | nil => rfl
    | cons b gap ih =>
      obtain ⟨blank, others⟩ := blanks_cons.1 blanks
      cases b with
      | literal => cases blank
      | char c =>
        have noNumeral : isNumeralChar c = false :=
          isBlank_induction (P := fun c => isNumeralChar c = false) (by decide) blank
        exact (takeEndWhile_append_of_not noNumeral [] _).trans (ih others)
  rw [awaitsExponent, awaitsExponent, run]

/-- A text of blanks has blanks for pieces. -/
theorem blanks_pieces (empty : trim t = []) : Blanks (SheetFormula.pieces t) := by
  obtain ⟨lead, trail, whole, leading, trailing⟩ := trimEnds_split isBlank t
  rw [← trim, empty, List.append_nil] at whole
  have blanks : ∀ c ∈ t, isBlank c = true := by
    rw [whole]
    exact List.forall_mem_append.2 ⟨leading, trailing⟩
  rw [pieces_of_noQuote fun met => ne_quote_of_isBlank (blanks _ met) rfl]
  exact List.forall_mem_map.2 blanks

theorem signed_nil (after : List Piece) : Signed [] after := by
  intro front p behind split
  rw [SheetFormula.pieces] at split
  cases front <;> cases split

/-- What stands around a part of a text makes no difference, if only blanks stand in front. -/
theorem Signed.inner {u : Text} {lead trail : List Piece} (signed : t.Signed after)
    (whole : SheetFormula.pieces t = lead ++ SheetFormula.pieces u ++ trail)
    (blanks : Blanks lead) : u.Signed [] := by
  intro front p behind split operator
  have inside : SheetFormula.pieces t = (lead ++ front) ++ p :: (behind ++ trail) := by
    rw [whole, split]
    simp
  refine (signed inside operator).imp_right fun ⟨isSign, place⟩ => ⟨isSign, ?_⟩
  rw [textOf_append, awaitsExponent_gap blanks] at place
  refine place.imp_right fun ⟨onlyBlanks, number⟩ => ⟨(blanks_append.1 onlyBlanks).2, ?_⟩
  intro q isNext
  cases behind with
  | nil => cases isNext
  | cons => exact number q isNext

/-- A piece more, which stood behind the text or takes the place of one that starts no number. -/
theorem Signed.concat {u : Text} (signed : t.Signed (q :: after))
    (whole : SheetFormula.pieces u = SheetFormula.pieces t ++ [p])
    (same : q.startsNumber = true → p = q)
    (last : p.isOperator = true → Held (SheetFormula.pieces t) p after) : u.Signed after := by
  intro front r behind split operator
  rw [whole] at split
  rcases List.eq_nil_or_concat behind with rfl | ⟨behind, s, rfl⟩
  · obtain ⟨rfl, isLast⟩ := List.append_inj' split rfl
    obtain rfl := List.singleton_inj.1 isLast
    exact last operator
  · rw [List.concat_eq_append, ← List.cons_append, ← List.append_assoc] at split
    obtain ⟨inside, isLast⟩ := List.append_inj' split rfl
    obtain rfl := List.singleton_inj.1 isLast
    refine (signed inside operator).imp_right fun ⟨isSign, place⟩ => ⟨isSign, ?_⟩
    refine place.imp_right fun ⟨onlyBlanks, number⟩ => ⟨onlyBlanks, fun x isNext => ?_⟩
    cases behind with
    | cons => exact number x isNext
    | nil =>
      obtain rfl : p = x := Option.some.inj isNext
      have starts := number q rfl
      exact same starts ▸ starts

end Text

/-! ## Operators that join a token -/

namespace Mark

variable {afterOperand : Bool} {pending : Text} {mark : Mark} {ms ns rest : List Mark} {c : Char}

/-- An operator that joins a token is a sign of the token, or an exclamation mark. -/
theorem held_of_joins (isChar : mark.piece = .char c) (operator : mark.piece.isOperator = true)
    (joins : Joins afterOperand pending c (rest.head?.bind char?)) :
    Held (pieces pending) mark.piece (rest.map piece) := by
  rw [isChar] at operator ⊢
  have isOperator : c ∈ ['<', '>', '=', '!', '+', '-', '*', '/', '&'] :=
    List.contains_iff_mem.1 operator
  have signs : c = '+' ∨ c = '-' → (Piece.char c).isSign = true := by
    rintro (rfl | rfl) <;> rfl
  cases joins with
  | plain noOperator =>
    by_cases exclamation : c = '!'
    · exact .inl (congrArg _ exclamation)
    · obtain ⟨op, single⟩ := Operator.exists_lexeme_eq (c := c)
        (by simpa [exclamation] using isOperator)
      exact absurd single (noOperator op)
  | range isColon =>
    rw [isColon] at isOperator
    exact absurd isOperator (by decide)
  | exponent isSign awaits =>
    exact .inr ⟨signs isSign, .inl (by rwa [textOf_pieces])⟩
  | number isSign blank _ number =>
    refine .inr ⟨signs isSign, .inr ⟨Text.blanks_pieces blank, fun q isNext => ?_⟩⟩
    rw [List.head?_map] at isNext
    obtain ⟨m, isFirst, rfl⟩ := Option.map_eq_some_iff.1 isNext
    rw [isFirst] at number
    exact number

/-- A pending token with closed literals only and no other operators, and the marks behind it. -/
structure Signed (pending : Text) (ms : List Mark) : Prop where
  proper : Proper (joined pending ms)
  signed : pending.Signed (ms.map piece)

/-- A mark may join the token as it stands, if it may be an operator of the token. -/
theorem Signed.join (signed : Signed pending (mark :: rest))
    (held : mark.piece.isOperator = true → Held (pieces pending) mark.piece (rest.map piece)) :
    Signed (pending ++ mark.piece.text) rest :=
  ⟨joined_append signed.proper ▸ signed.proper,
    signed.signed.concat (pieces_join signed.proper) (fun _ => rfl) held⟩

theorem Signed.space (signed : Signed pending (mark :: rest)) (isChar : mark.piece = .char c)
    (connector : Text.isConnector c = true) : Signed (pending ++ [' ']) rest := by
  have cut : pieces ([] ++ pending ++ [' ']) = [] ++ pieces pending ++ [.char ' '] :=
    Text.pieces_frame (holds_token signed.proper).closed (by decide) (by decide)
  refine ⟨(joined_space signed.proper isChar).1, signed.signed.concat cut ?_ fun space => ?_⟩
  · intro starts
    rw [isChar] at starts
    rcases Text.isConnector_iff.1 connector with rfl | rfl | rfl | rfl <;> cases starts
  · cases space

theorem Signed.fresh (signed : Signed pending ms) (within : ns <:+: ms) : Signed [] ns :=
  ⟨proper_fresh signed.proper within, Text.signed_nil _⟩

theorem Signed.name (signed : Signed pending ms) : Signed (Text.cutBeforeName pending).1 [] := by
  have front := (holds_token signed.proper).cutBeforeName
  have noQuote : '"' ∉ (Text.cutBeforeName pending).2 := fun met =>
    (Text.isNameChar_spelling (all_takeEndWhile pending _ met)).1 rfl
  have whole : pieces ([] ++ (Text.cutBeforeName pending).1 ++ (Text.cutBeforeName pending).2) =
      [] ++ pieces (Text.cutBeforeName pending).1 ++ (Text.cutBeforeName pending).2.map .char :=
    Text.pieces_frame front.closed List.not_mem_nil noQuote
  rw [List.nil_append, Text.cutBeforeName, dropEndWhile_append_takeEndWhile] at whole
  refine ⟨?_, signed.signed.inner whole blanks_nil⟩
  rw [joined, List.map_nil, List.append_nil]
  exact Piece.proper_pieces front.closed

theorem Signed.token (signed : Signed pending ms) : (Text.trim pending).SignedToken := by
  have closed := (holds_token signed.proper).trim.closed
  obtain ⟨lead, trail, whole, leading, trailing⟩ := trimEnds_split Text.isBlank pending
  have cut := Text.pieces_frame closed (fun met => Text.ne_quote_of_isBlank (leading _ met) rfl)
    fun met => Text.ne_quote_of_isBlank (trailing _ met) rfl
  rw [Text.trim, ← whole] at cut
  refine ⟨closed, trimEnds_trimEnds pending, signed.signed.inner cut ?_⟩
  exact List.forall_mem_map.2 leading

theorem rowInvariant_signed : RowInvariant Signed Text.SignedToken where
  literal signed isLiteral := by
    have joins := signed.join fun operator => by rw [isLiteral] at operator; cases operator
    rwa [isLiteral] at joins
  connector signed isChar _ connector := signed.space isChar connector
  char signed isChar _ _ joins := by
    have joins := signed.join fun operator => held_of_joins isChar operator
      (joins_of_standaloneOperator? isChar joins)
    rwa [isChar] at joins
  fresh := Signed.fresh
  trimmed signed := signed.fresh (trimmed_isInfix (closed_of_proper signed.proper))
  name signed _ := signed.name
  token := Signed.token

end Mark

open Mark Expression in
/-- The leaves of an accepted formula hold such operators only. -/
theorem Formula.signedToken_of_leaf {x : Text} {tree : Expression}
    (accepted : (ofText x).tree? = .ok tree) (isLeaf : .leaf t ∈ tree.nodes) :
    t.SignedToken := by
  have nothing : Text.SignedToken [] :=
    ⟨Text.literalsClosed_of_noQuote List.not_mem_nil, rfl, Text.signed_nil _⟩
  have begins : (ofText x).body.LiteralsClosed → Signed [] (marks (ofText x).body) := by
    exact fun closed => ⟨proper_marks closed, Text.signed_nil _⟩
  obtain ⟨parts, rfl, row, visible⟩ := row_of_accepted rowInvariant_signed accepted begins
  rw [nodes, List.mem_cons] at isLeaf
  rcases isLeaf with isRoot | isLeaf
  · obtain ⟨rfl, rfl⟩ := Expression.plain.inj isRoot
    exact visible rfl ▸ nothing
  · exact row.sound nothing isLeaf

/-! ## Padding of signed tokens -/

/-- The run of numeral characters goes on piece by piece. -/
theorem takeEndWhile_textOf (whole : p.Whole) (front : List Piece) :
    takeEndWhile Text.isNumeralChar (textOf (front ++ [p])) =
      runBehind (takeEndWhile Text.isNumeralChar (textOf front)) p := by
  have single : textOf [p] = p.text := List.flatMap_singleton _ _
  rw [textOf_append, single]
  cases p with
  | char c =>
    show takeEndWhile _ (textOf front ++ [c]) = if Text.isNumeralChar c then _ else _
    split
    · next numeral =>
      exact takeEndWhile_append_of_all (List.forall_mem_singleton.2 numeral) _
    · next other =>
      exact takeEndWhile_concat_of_not (by simpa using other) _
  | literal text closed =>
    obtain ⟨-, ends⟩ := whole.quotes rfl
    obtain ⟨text, rfl⟩ := List.getLast?_eq_some_iff.1 ends
    show takeEndWhile _ (textOf front ++ (text ++ ['"'])) = []
    rw [← List.append_assoc]
    exact takeEndWhile_concat_of_not (by decide) _

theorem awaitsExponent_takeEndWhile (t : Text) :
    Text.awaitsExponent (takeEndWhile Text.isNumeralChar t) = Text.awaitsExponent t := by
  have again : takeEndWhile Text.isNumeralChar (takeEndWhile Text.isNumeralChar t) =
      takeEndWhile Text.isNumeralChar t :=
    takeEndWhile_eq_self (all_takeEndWhile t)
  rw [Text.awaitsExponent, Text.awaitsExponent, again]

theorem Piece.eq_of_isSign (isSign : p.isSign = true) : p = .char '+' ∨ p = .char '-' := by
  cases p with
  | literal => cases isSign
  | char c => simpa [Piece.isSign, satisfies, char?] using isSign

/-- Only a plus or a minus is padded where there are no other operators. -/
theorem isSign_of_padded {op : Operator} (quoted : Quoted (p :: ps))
    (padded : paddedOperator? (p :: ps) = some op)
    (few : ∀ q ∈ p :: ps, q.isOperator = true → q = .char '!' ∨ q.isSign = true) :
    op.isSign = true ∧ p.isSign = true ∧ op.pieces = [p] ∧ op.width = 1 := by
  have begins := pieces_of_paddedOperator quoted padded
  have all : ∀ q ∈ op.pieces, q = .char '!' ∨ q.isSign = true := by
    intro q met
    refine few q ?_ (isOperator_of_padded padded q met)
    rw [← begins]
    exact List.mem_append_left _ met
  have first : ∀ c more, op.lexeme = c :: more → p = .char c := by
    intro c more same
    rw [Operator.pieces, same] at begins
    exact (List.cons.inj begins).1.symm
  have held : ∀ c ∈ op.lexeme, c = '!' ∨ c = '+' ∨ c = '-' := by
    intro c met
    simpa [isSign, satisfies, char?] using all (.char c) (List.mem_map_of_mem met)
  cases op with
  | plus => exact first _ _ rfl ▸ ⟨rfl, rfl, rfl, rfl⟩
  | minus => exact first _ _ rfl ▸ ⟨rfl, rfl, rfl, rfl⟩
  | _ => exact absurd (held _ (List.mem_of_getLast? rfl)) (by decide)

/-- Every operator among the pieces is an exclamation mark or the sign of an exponent, with certain
pieces in front of them all. -/
def Piece.OnlyExponents (front ps : List Piece) : Prop :=
  ∀ ⦃mid p behind⦄, ps = mid ++ p :: behind → p.isOperator = true →
    p = .char '!' ∨ p.isSign = true ∧ Text.awaitsExponent (textOf (front ++ mid)) = true

theorem Piece.OnlyExponents.tail (only : OnlyExponents front (p :: ps)) :
    OnlyExponents (front ++ [p]) ps := by
  intro mid q behind split operator
  have inside : p :: ps = (p :: mid) ++ q :: behind := congrArg _ split
  have held := only inside operator
  rwa [List.append_cons] at held

theorem Piece.OnlyExponents.of_mem (only : OnlyExponents front ps) :
    ∀ q ∈ ps, q.isOperator = true → q = .char '!' ∨ q.isSign = true := by
  intro q met operator
  obtain ⟨mid, behind, split⟩ := List.append_of_mem met
  exact (only split operator).imp_right And.left

/-- Where all operators are signs of exponents, nothing is padded. -/
theorem addPadding_eq_self (front : List Piece) (neighbour : Option Piece) {run : Text}
    (isRun : run = takeEndWhile Text.isNumeralChar (textOf front)) (quoted : Quoted ps)
    (whole : ∀ p ∈ ps, p.Whole) (only : OnlyExponents front ps) :
    addPadding neighbour run ps = ps := by
  fun_induction addPadding neighbour run ps generalizing front with
  | case1 => rfl
  | case2 neighbour run p ps _ ih =>
    obtain ⟨first, others⟩ := List.forall_mem_cons.1 whole
    rw [ih (front ++ [p]) (by rw [isRun, takeEndWhile_textOf first]) quoted.tail others only.tail]
  | case3 neighbour run p ps op padded _ ih =>
    obtain ⟨first, others⟩ := List.forall_mem_cons.1 whole
    obtain ⟨-, isSign, single, width⟩ := isSign_of_padded quoted padded only.of_mem
    have noNumeral : takeEndWhile Text.isNumeralChar (textOf (front ++ [p])) = [] := by
      rw [takeEndWhile_textOf first]
      rcases eq_of_isSign isSign with rfl | rfl <;> rfl
    rw [width] at ih ⊢
    rw [ih (front ++ [p]) noNumeral.symm quoted.tail others only.tail, single]
    rfl
  | case4 neighbour run p ps op padded allowed ih =>
    obtain ⟨isSign, isSign', single, width⟩ := isSign_of_padded quoted padded only.of_mem
    have operator : p.isOperator = true := isOperator_of_padded padded p (by simp [single])
    have split : p :: ps = [] ++ p :: ps := rfl
    have awaits : Text.awaitsExponent (textOf front) = true := by
      rcases only split operator with rfl | ⟨-, awaits⟩
      · cases isSign'
      · rwa [List.append_nil] at awaits
    rw [isSign, isRun, awaitsExponent_takeEndWhile, awaits] at allowed
    simp at allowed

/-! ## Gaps of signed tokens -/

/-- A gap gets no longer, but for some places. -/
def Piece.Change.tightens (loose : List Piece → List Piece → Prop) : Change :=
  fun before gap gap' after => loose before after ∨ gap'.length ≤ gap.length

/-- The gaps at the ends of a text. -/
def Piece.AtEnds (before after : List Piece) : Prop :=
  before = [] ∨ after = []

theorem Text.eq_cons_of_pieces {c : Char} (split : SheetFormula.pieces t = .char c :: ps) :
    t = c :: textOf ps := by
  rw [← textOf_pieces t, split]
  rfl

/-- Nothing but blanks stands in front of a token's first piece, so nothing does. -/
theorem Text.SignedToken.eq_nil_of_blanks (token : t.SignedToken)
    (split : SheetFormula.pieces t = front ++ behind) (blanks : Blanks front) : front = [] := by
  cases front with
  | nil => rfl
  | cons b front =>
    have blank := (blanks_cons.1 blanks).1
    cases b with
    | literal => cases blank
    | char c =>
      have head : (Text.trim t).head? = some c := by
        rw [token.trimmed, Text.eq_cons_of_pieces split]
        rfl
      have noBlank : Text.isBlank c = false := head?_trimEnds head
      have isBlank : Text.isBlank c = true := blank
      rw [noBlank] at isBlank
      cases isBlank

theorem paddedOperator?_minus (ps : List Piece) :
    paddedOperator? (.char '-' :: ps) = some .minus := by
  have begins : Operator.atStart? (textOf ((Piece.char '-' :: ps).take 2)) = some .minus :=
    Operator.minus.atStart?_lexeme fun listed => absurd listed (by decide)
  rw [paddedOperator?, begins]
  rfl

/-- A minus at the start gets blanks on both sides. -/
theorem addPadding_minus (allowed : forbidsPadding ps.head? = false) :
    addPadding none [] (.char '-' :: ps) =
      [.char ' '] ++ .char '-' :: ([.char ' '] ++ addPadding (some (.char '-')) [] ps) := by
  have noExponent : Text.awaitsExponent [] = false := rfl
  rw [addPadding]
  split
  · next none =>
    rw [paddedOperator?_minus] at none
    cases none
  · next op padded =>
    rw [paddedOperator?_minus] at padded
    cases padded
    have behind : ps.drop (Operator.minus.width - 1) = ps := rfl
    rw [behind, allowed, noExponent]
    rfl

theorem forbidsPadding_digit {d : Piece} (digit : d.satisfies Char.isDigit = true) :
    forbidsPadding (some d) = false := by
  have noBlank := visible_digit digit
  have noOperator := (inert_digit digit).noOperator
  cases d with
  | literal => rfl
  | char c =>
    have noBlank : Text.isBlank c = false := noBlank
    simp only [isOperator, satisfies, char?, Option.any_some, List.contains_cons,
      Bool.or_eq_false_iff] at noOperator
    obtain ⟨less, greater, equal, exclamation, -⟩ := noOperator
    simp [forbidsPadding, satisfies, char?, noBlank, less, greater, equal, exclamation]

/-- A minus at the start of a token is no sign of an exponent, so a digit follows. -/
theorem Text.SignedToken.digit_of_minus (token : t.SignedToken)
    (split : SheetFormula.pieces t = .char '-' :: ps) (noPoint : ¬['-', '.'] <+: t) :
    ∀ d ∈ ps.head?, d.satisfies Char.isDigit = true := by
  have held : Held [] (.char '-') (ps ++ []) := token.signed split rfl
  obtain exclamation | ⟨-, awaits | ⟨-, number⟩⟩ := held
  · cases exclamation
  · cases awaits
  · rw [List.append_nil] at number
    intro d isNext
    have starts := number d isNext
    cases d with
    | literal => cases starts
    | char c =>
      obtain ⟨ps, rfl⟩ := List.head?_eq_some_iff.1 isNext
      refine (Bool.or_eq_true_iff.1 starts).resolve_right fun point => noPoint ?_
      rw [Text.eq_cons_of_pieces split, eq_of_beq point]
      exact ⟨textOf ps, rfl⟩

/-- Padding puts blanks around the minus that a token begins with, if that belongs to a number. -/
theorem Text.SignedToken.regapped_addPadding (token : t.SignedToken) (noPlus : t.head? ≠ some '+')
    (noPoint : ¬['-', '.'] <+: t) :
    Regapped (Change.tightens fun before after => AtEnds before after ∨ SignEdge before after) []
      (SheetFormula.pieces t) (addPadding none [] (SheetFormula.pieces t)) := by
  have signed := token.signed
  have whole := (proper_pieces token.closed).whole
  have quoted := quoted_pieces t
  by_cases minus : (SheetFormula.pieces t).head? = some (.char '-')
  · obtain ⟨ps, split⟩ := List.head?_eq_some_iff.1 minus
    rw [Text.Signed, split] at signed
    rw [split] at whole quoted ⊢
    obtain ⟨-, others⟩ := List.forall_mem_cons.1 whole
    have digit := token.digit_of_minus split noPoint
    have allowed : forbidsPadding ps.head? = false := by
      cases ps with
      | nil => rfl
      | cons d ps => exact forbidsPadding_digit (digit d rfl)
    have rest : addPadding (some (.char '-')) [] ps = ps := by
      refine addPadding_eq_self [.char '-'] _ rfl quoted.tail others ?_
      intro mid p behind inside operator
      have within : Piece.char '-' :: ps = (.char '-' :: mid) ++ p :: behind := congrArg _ inside
      have held := signed within operator
      refine held.imp_right fun ⟨isSign, place⟩ => ⟨isSign, place.resolve_right fun sign => ?_⟩
      -- the sign of a number stands behind no minus
      cases sign.1 _ List.mem_cons_self
    rw [addPadding_minus allowed, rest]
    refine .next blanks_nil blanks_space rfl (.inl (.inl (.inl rfl))) ?_
    cases ps with
    | nil => exact .last blanks_nil blanks_space (.inl (.inl (.inr rfl)))
    | cons d ps =>
      have isDigit := digit d rfl
      have place : SignPlace [] := fun _ isFirst => by cases isFirst
      have edge : SignEdge [.char '-'] (d :: solid ps) := ⟨[], d, _, rfl, place, rfl, isDigit⟩
      exact .next blanks_nil blanks_space (visible_digit isDigit) (.inl (.inr edge))
        (.refl (fun _ _ _ => .inr le_rfl) _ _)
  · have same : addPadding none [] (SheetFormula.pieces t) = SheetFormula.pieces t := by
      refine addPadding_eq_self [] _ rfl quoted whole ?_
      intro mid p behind inside operator
      refine (signed inside operator).imp_right fun ⟨isSign, place⟩ =>
        ⟨isSign, place.resolve_right fun sign => ?_⟩
      rw [token.eq_nil_of_blanks inside sign.1, List.nil_append] at inside
      rcases eq_of_isSign isSign with rfl | rfl
      · exact noPlus (by rw [Text.eq_cons_of_pieces inside]; rfl)
      · exact minus (by rw [inside]; rfl)
    rw [same]
    exact .refl (fun _ _ _ => .inr le_rfl) _ _

section Tightens

variable {loose loose' : List Piece → List Piece → Prop} {gap'' : List Piece}

/-- A step that makes no gap longer leaves places out where it takes the gap away. -/
theorem Piece.Change.tightens_of_le (first : Change.tightens loose before gap gap' after)
    (shorter : gap''.length ≤ gap'.length)
    (settles : loose before after → ¬loose' before after → gap'' = []) :
    Change.tightens loose' before gap gap'' after := by
  by_cases still : loose' before after
  · exact .inl still
  · rcases first with isLoose | length
    · rw [settles isLoose still]
      exact .inr (Nat.zero_le _)
    · exact .inr (shorter.trans length)

theorem Piece.Change.length_le_of_shrinks (changed : Change.shrinks before gap gap' after) :
    gap'.length ≤ gap.length := by
  rcases changed with ⟨-, rfl⟩ | ⟨long, rfl⟩
  · exact le_rfl
  · exact Nat.le_of_lt long

theorem Piece.Change.length_le_of_signs (changed : Change.signs before gap gap' after) :
    gap'.length ≤ gap.length := by
  rcases changed with ⟨-, rfl⟩ | ⟨-, rfl | ⟨rfl, -⟩⟩
  · exact Nat.zero_le _
  · exact le_rfl
  · exact Nat.zero_le _

theorem Piece.Change.length_le_of_clears {edge : Piece → Piece → Prop}
    (changed : Change.clears edge before gap gap' after) : gap'.length ≤ gap.length := by
  rcases changed with rfl | ⟨rfl, -⟩
  · exact le_rfl
  · exact Nat.zero_le _

theorem Piece.Change.length_le_of_trims (changed : Change.trims before gap gap' after) :
    gap'.length ≤ gap.length := by
  rcases changed with ⟨-, rfl⟩ | ⟨-, rfl⟩
  · exact Nat.zero_le _
  · exact le_rfl

end Tightens

/-- The later steps take away what the first one puts at the ends and behind the sign of a
number. -/
theorem Piece.Regapped.spacedPieces (padded : Regapped (Change.tightens fun before after =>
      AtEnds before after ∨ SignEdge before after) [] ps (addPadding none [] ps)) :
    Regapped (fun _ gap gap' _ => gap'.length ≤ gap.length) [] ps (spacedPieces ps) := by
  have collapsed : Regapped (Change.tightens fun before after =>
      AtEnds before after ∨ SignEdge before after) [] ps _ :=
    padded.trans (regapped_collapseBlanks _ _) fun _ _ _ _ _ first changed =>
      Change.tightens_of_le first (Change.length_le_of_shrinks changed) fun isLoose still =>
        absurd isLoose still
  have signed : Regapped (Change.tightens AtEnds) [] ps _ :=
    collapsed.trans (regapped_tightenSigns _) fun _ _ _ _ _ first changed =>
      Change.tightens_of_le first (Change.length_le_of_signs changed) fun isLoose still => by
        rcases changed with ⟨-, none⟩ | ⟨noEdge, -⟩
        · exact none
        · exact absurd (isLoose.resolve_left still) noEdge
  have cleared : ∀ {edge : Piece → Piece → Prop} {before gap gap' gap'' after},
      Change.tightens AtEnds before gap gap' after → Change.clears edge before gap' gap'' after →
        Change.tightens AtEnds before gap gap'' after := fun first changed =>
    Change.tightens_of_le first (Change.length_le_of_clears changed) fun isLoose still =>
      absurd isLoose still
  have absolute := ((signed.trans (spelt_tightRange.regapped _ _) fun _ _ _ _ _ => cleared).trans
    (spelt_absoluteColumn.regapped _ _) fun _ _ _ _ _ => cleared).trans
      (spelt_absoluteRow.regapped _ _) fun _ _ _ _ _ => cleared
  refine absolute.trans (regapped_trimEnds _) fun _ _ _ _ _ first changed => ?_
  rcases first with ends | length
  · rcases changed with ⟨-, none⟩ | ⟨inside, -⟩
    · rw [none]
      exact Nat.zero_le _
    · exact absurd ends (not_or.2 inside)
  · exact (Change.length_le_of_trims changed).trans length

/-- Padding makes no gap of a leaf of an accepted formula longer, if the leaf begins neither with a
plus nor with a minus and a point. -/
theorem Formula.regapped_leaf {x : Text} {tree : Expression}
    (accepted : (ofText x).tree? = .ok tree) (isLeaf : .leaf t ∈ tree.nodes)
    (noPlus : t.head? ≠ some '+') (noPoint : ¬['-', '.'] <+: t) :
    Regapped (fun _ gap gap' _ => gap'.length ≤ gap.length) [] (pieces t)
      (pieces (Text.spaced t)) := by
  rw [pieces_spaced]
  exact ((signedToken_of_leaf accepted isLeaf).regapped_addPadding noPlus noPoint).spacedPieces

namespace Formula

/-- A leaf among the nodes of an accepted formula, found by its text. -/
theorem exists_leaf {x : Text} (found : (ofText x).tree?.toOption.any (fun tree =>
    tree.nodes.any fun n => n.isLeaf && n.source == t) = true) :
    ∃ tree, (ofText x).tree? = .ok tree ∧ .leaf t ∈ tree.nodes := by
  cases accepted : (ofText x).tree? with
  | error fault => rw [accepted] at found; cases found
  | ok tree =>
    rw [accepted] at found
    obtain ⟨n, isNode, shown⟩ := List.any_eq_true.1 found
    rw [Bool.and_eq_true, beq_iff_eq] at shown
    obtain ⟨isLeaf, isText⟩ := shown
    cases n with
    | plain source parts =>
      obtain rfl := List.isEmpty_iff.1 isLeaf
      obtain rfl : source = t := isText
      exact ⟨tree, rfl, isNode⟩
    | _ => cases isLeaf

/-- The sign of a number, and that of its exponent. -/
theorem regapped_leaf_exponent : ∃ tree,
    (ofText "=A1*-1E+5".toList).tree? = .ok tree ∧ .leaf "-1E+5".toList ∈ tree.nodes ∧
      Regapped (fun _ gap gap' _ => gap'.length ≤ gap.length) [] (pieces "-1E+5".toList)
        (pieces (Text.spaced "-1E+5".toList)) := by
  obtain ⟨tree, accepted, isLeaf⟩ :
      ∃ tree, (ofText "=A1*-1E+5".toList).tree? = .ok tree ∧ .leaf "-1E+5".toList ∈ tree.nodes :=
    exists_leaf (by decide +kernel)
  exact ⟨tree, accepted, isLeaf, regapped_leaf accepted isLeaf (by decide) (by decide)⟩

/-- A minus in front of a point is a sign when the formula is read, and a plus is one too. Padding
sets both apart from their numbers. -/
theorem spaced_signed_leaves :
    (∃ tree, (ofText "=-.5".toList).tree? = .ok tree ∧ .leaf "-.5".toList ∈ tree.nodes) ∧
      Text.spaced "-.5".toList = "- .5".toList ∧
    (∃ tree, (ofText "=+5".toList).tree? = .ok tree ∧ .leaf "+5".toList ∈ tree.nodes) ∧
      Text.spaced "+5".toList = "+ 5".toList := by
  refine ⟨exists_leaf ?_, ?_, exists_leaf ?_, ?_⟩ <;> decide +kernel

end Formula

end SheetFormula
