import SheetFormula.Proofs.Format.Tiles
import SheetFormula.Proofs.Reading.Divided
import SheetFormula.Proofs.Marks.Covering

/-!
# Typeset expressions

The marks of a laid out expression follow its parts, whatever line breaks and connectors the style
puts between them: a leaf has the marks of its text, parentheses stand around the marks of their
parts, with layout at both ends, and semicolons between those of arguments
(`Expression.IsArgument.typeset`). Nothing that reads the marks again needs to know how the lines
were broken.

## Main definitions

* `Expression.Typeset`, `Expression.TypesetRow`, `Expression.TypesetArguments` — the marks of a
  part, of parts in a row, and of the arguments of a call
-/

namespace SheetFormula

open Mark (Covers Written)

/-- The text that a leaf is laid out as is a firm token too. -/
theorem Text.FirmToken.leaf {t : Text} (token : t.FirmToken) (style : Style) :
    (style.leaf t).FirmToken := by
  unfold Style.leaf
  split
  · exact token.spaced
  · exact token

namespace Expression

/-! ## The grammar of marks -/

section Grammar

variable (P : Text → Prop) (style : Style)

mutual

/-- The marks of a part in a row, of which no name or leaf has a property. -/
inductive Typeset : Expression → List Mark → Prop where
  | leaf {t : Text} {ms : List Mark} (holds : P t) (visible : t ≠ [])
      (written : Written (style.leaf t) ms) : Typeset (plain t []) ms
  | group {source : Text} {parts : List Expression} {opening closing : Mark}
      {lead ms trail : List Mark} (isOpening : opening.piece = .char '(')
      (isClosing : closing.piece = .char ')') (leading : ∀ m ∈ lead, m.isLayout = true)
      (trailing : ∀ m ∈ trail, m.isLayout = true) (inside : TypesetRow parts ms) :
      Typeset (group source parts) (opening :: (lead ++ ms ++ trail ++ [closing]))
  | call {name source : Text} {arguments : List Expression} {word inside : List Mark}
      {opening closing : Mark} (known : name ∈ FunctionName.known)
      (filled : arguments ≠ [plain [] []]) (isName : Written name word)
      (isOpening : opening.piece = .char '(') (isClosing : closing.piece = .char ')')
      (each : TypesetArguments arguments inside) :
      Typeset (call name source arguments) (word ++ opening :: (inside ++ [closing]))
  | operator {op : Operator} {ms : List Mark} (written : Written op.lexeme ms) :
      Typeset (operator op) ms

/-- The marks of parts in a row. -/
inductive TypesetRow : List Expression → List Mark → Prop where
  | nil : TypesetRow [] []
  | cons {e : Expression} {es : List Expression} {ms gap ns : List Mark} (first : Typeset e ms)
      (apart : ∀ f ∈ es.head?, ¬(e.isLeaf = true ∧ f.isLeaf = true))
      (between : Written (gapBetween e es) gap) (behind : TypesetRow es ns) :
      TypesetRow (e :: es) (ms ++ (gap ++ ns))

/-- The marks between the parentheses of a call. -/
inductive TypesetArguments : List Expression → List Mark → Prop where
  | none : TypesetArguments [] []
  | last {a : Expression} {lead ms trail : List Mark} (leading : ∀ m ∈ lead, m.isLayout = true)
      (trailing : ∀ m ∈ trail, m.isLayout = true) (argument : TypesetRow a.row ms) :
      TypesetArguments [a] (lead ++ ms ++ trail)
  | next {a b : Expression} {others : List Expression} {lead ms rest : List Mark} {mark : Mark}
      (leading : ∀ m ∈ lead, m.isLayout = true) (argument : TypesetRow a.row ms)
      (isSemicolon : mark.piece = .char ';') (behind : TypesetArguments (b :: others) rest) :
      TypesetArguments (a :: b :: others) (lead ++ ms ++ mark :: rest)

end

end Grammar

/-! ## The forms of the parts -/

section Forms

variable {P : Text → Prop} {style : Style} {depth : Nat} {i : Bool} {lead content trail : Text}
  {before ms : List Mark} {arguments : List Expression} {text : Expression → Text}

theorem exists_parentheses (leading : ∀ c ∈ lead, Text.isBlank c = true)
    (trailing : ∀ c ∈ trail, Text.isBlank c = true) (closed : content.LiteralsClosed)
    (begins : lead = [] ∨
      ∀ c, content.head? = some c → Text.isBlank c = false ∧ Text.isConnector c = false)
    (covers : Covers false ('(' :: (lead ++ (content ++ (trail ++ [')'])))) ms) :
    ∃ opening first inside last closing, ms = opening :: (first ++ inside ++ last ++ [closing]) ∧
      opening.piece = .char '(' ∧ closing.piece = .char ')' ∧ (∀ m ∈ first, m.isLayout = true) ∧
      (∀ m ∈ last, m.isLayout = true) ∧ Covers false content inside := by
  have noQuote : ∀ {t : Text}, (∀ c ∈ t, Text.isBlank c = true) → '"' ∉ t := fun blank met =>
    Text.ne_quote_of_isBlank (blank _ met) rfl
  obtain ⟨opening, behind, rfl, isOpening, -, covers⟩ := covers.of_cons (by decide)
  obtain ⟨first, behind, rfl, isLead, covers⟩ := covers.of_append_plain (noQuote leading)
  have apart : (trail ++ [')']).head? ≠ some '"' :=
    Text.head?_append_ne_quote (noQuote trailing) (by decide)
  obtain ⟨inside, behind, rfl, isContent, covers⟩ := covers.of_append closed (.inr apart)
  obtain ⟨last, behind, rfl, isTrail, covers⟩ := covers.of_append_plain (noQuote trailing)
  obtain ⟨closing, behind, rfl, isClosing, -, covers⟩ := covers.of_cons (by decide)
  obtain rfl := covers.eq_nil
  refine ⟨opening, first, inside, last, closing, by simp, isOpening, isClosing,
    isLead.layout fun c met => .inl (leading c met),
    isTrail.layout fun c met => .inl (trailing c met), ?_⟩
  rcases begins with rfl | begins
  · exact isContent
  · exact isContent.inLine begins

theorem exists_name {name rest : Text} (known : name ∈ FunctionName.known)
    (covers : Covers false (name ++ '(' :: rest) ms) :
    ∃ word opening behind, ms = word ++ opening :: behind ∧ Written name word ∧
      opening.piece = .char '(' ∧ Covers false rest behind := by
  have spelling : ∀ c ∈ name, _ := fun c met =>
    FunctionName.spelling ((FunctionName.spells_of_mem_known known).2 c met)
  obtain ⟨word, behind, rfl, isName, covers⟩ :=
    covers.of_append_plain fun met => (spelling _ met).2.2.2.1 rfl
  obtain ⟨opening, behind, rfl, isOpening, -, covers⟩ := covers.of_cons (by decide)
  refine ⟨word, opening, behind, rfl, isName.written_of_plain fun c met =>
    ⟨(spelling c met).2.2.2.1, (spelling c met).2.2.2.2.1⟩, isOpening, ?_⟩
  rwa [Text.staysIndented_eq_false (c := '(') (by decide) fun _ => by decide] at covers

theorem gapBetween_cases (e : Expression) (es : List Expression) :
    gapBetween e es = [] ∨ gapBetween e es = [' '] := by
  unfold gapBetween
  split
  · exact .inl rfl
  · split
    · exact .inr rfl
    · exact .inl rfl

theorem eq_space_of_mem_gapBetween {e : Expression} {es : List Expression} {c : Char}
    (met : c ∈ gapBetween e es) : c = ' ' := by
  rcases gapBetween_cases e es with none | space
  · rw [none] at met
    cases met
  · rw [space] at met
    exact List.mem_singleton.1 met

theorem plain_gap (e : Expression) (es : List Expression) :
    ∀ c ∈ gapBetween e es, c ≠ '"' ∧ Text.isConnector c = false := by
  intro c met
  rw [eq_space_of_mem_gapBetween met]
  decide

/-- A text that is laid out for an argument, and whose marks are those of its parts. -/
structure Sets (P : Text → Prop) (style : Style) (a : Expression) (t : Text) : Prop where
  settled : t.Settled
  typeset : ∀ ms, Covers false t ms → TypesetRow P style a.row ms

theorem Sets.closed {a : Expression} {t : Text} (sets : Sets P style a t) : t.LiteralsClosed :=
  Text.literalsClosed_iff.2 sets.settled.closed

/-- The marks of a list of arguments up to the parenthesis that closes it. -/
def ListCloses (P : Text → Prop) (style : Style) (arguments : List Expression)
    (before ms : List Mark) : Prop :=
  ∃ inside closing, ms = inside ++ [closing] ∧ closing.piece = .char ')' ∧
    TypesetArguments P style arguments (before ++ inside)

theorem listCloses_joined (each : ∀ a ∈ arguments, Sets P style a (text a))
    (nonempty : arguments ≠ []) (leading : ∀ m ∈ before, m.isLayout = true)
    (covers : Covers false (Text.joined [';', ' '] (arguments.map text) ++ [')']) ms) :
    ListCloses P style arguments before ms := by
  induction arguments generalizing before ms with
  | nil => exact absurd rfl nonempty
  | cons a others ih =>
    obtain ⟨first, behind⟩ := List.forall_mem_cons.1 each
    cases others with
    | nil =>
      obtain ⟨inside, rest, rfl, isFirst, covers⟩ :=
        Covers.of_append (s := text a) covers first.closed (.inr (by simp))
      obtain ⟨closing, rest, rfl, isClosing, -, covers⟩ := covers.of_cons (by decide)
      obtain rfl := covers.eq_nil
      have none : ∀ m ∈ ([] : List Mark), m.isLayout = true := fun _ met =>
        absurd met List.not_mem_nil
      have whole := TypesetArguments.last leading none (first.typeset inside isFirst)
      rw [List.append_nil] at whole
      exact ⟨inside, closing, rfl, isClosing, whole⟩
    | cons b others =>
      have shape : Text.joined [';', ' '] ((a :: b :: others).map text) ++ [')'] =
          text a ++ (';' :: ([' '] ++
            (Text.joined [';', ' '] ((b :: others).map text) ++ [')']))) := by
        simp [Text.joined]
      rw [shape] at covers
      obtain ⟨inside, rest, rfl, isFirst, covers⟩ := covers.of_append first.closed (.inr (by simp))
      obtain ⟨mark, rest, rfl, isSemicolon, -, covers⟩ := covers.of_cons (by decide)
      obtain ⟨gap, rest, rfl, isGap, covers⟩ := covers.of_append_plain (by decide)
      rw [first.settled.outside] at covers
      have layout := isGap.layout fun c met => .inl (by rw [List.mem_singleton.1 met]; decide)
      obtain ⟨last, closing, rfl, isClosing, later⟩ :=
        ih behind (List.cons_ne_nil _ _) layout covers
      refine ⟨inside ++ mark :: (gap ++ last), closing, by simp, isClosing, ?_⟩
      have whole := TypesetArguments.next leading (first.typeset inside isFirst) isSemicolon later
      rwa [List.append_assoc] at whole

theorem listCloses_lines (each : ∀ a ∈ arguments, Sets P style a (text a))
    (begins : ∀ a ∈ arguments, ∀ c, (text a).head? = some c →
      Text.isBlank c = false ∧ Text.isConnector c = false)
    (nonempty : arguments ≠ []) (trailing : ∀ c ∈ trail, Text.isBlank c = true)
    (covers : Covers i ('\n' :: (argumentLines style depth (arguments.map text) ++
      (trail ++ [')']))) ms) : ListCloses P style arguments [] ms := by
  induction arguments generalizing i ms with
  | nil => exact absurd rfl nonempty
  | cons a others ih =>
    obtain ⟨first, behind⟩ := List.forall_mem_cons.1 each
    obtain ⟨plain, plainBehind⟩ := List.forall_mem_cons.1 begins
    obtain ⟨lineBreak, rest, rfl, -, isLayout, covers⟩ := covers.of_cons (by decide)
    have shape : argumentLines style depth ((a :: others).map text) ++ (trail ++ [')']) =
        style.margin (depth + 1) (some others.isEmpty) ++ (text a ++
          ((if others.isEmpty then [] else [';']) ++
            ('\n' :: (argumentLines style depth (others.map text) ++ (trail ++ [')']))))) := by
      rw [List.map_cons, argumentLines, List.isEmpty_map, Tile.margin_argument]
      simp
    have indented : Text.staysIndented i '\n' = true := rfl
    rw [shape, indented] at covers
    have noQuote : '"' ∉ style.margin (depth + 1) (some others.isEmpty) := fun met =>
      absurd (Tile.mem_margin met) (by decide)
    obtain ⟨margin, rest, rfl, isMargin, covers⟩ := covers.of_append_plain noQuote
    have leading : ∀ m ∈ lineBreak :: margin, m.isLayout = true := by
      refine List.forall_mem_cons.2 ⟨isLayout, isMargin.layout fun c met => ?_⟩
      have kinds := List.all_eq_true.1 (by decide : [' ', '├', '└', '─'].all fun d =>
        Text.isBlank d || Text.isConnector d) c (Tile.mem_margin met)
      rw [Bool.or_eq_true] at kinds
      exact kinds.imp_right fun connector => ⟨rfl, connector⟩
    have apart : ((if others.isEmpty then [] else [';']) ++
        ('\n' :: (argumentLines style depth (others.map text) ++
          (trail ++ [')'])))).head? ≠ some '"' := by
      split <;> simp
    obtain ⟨inside, rest, rfl, isFirst, covers⟩ := covers.of_append first.closed (.inr apart)
    have argument := first.typeset inside (isFirst.inLine plain)
    cases others with
    | nil =>
      have shape : (if List.isEmpty ([] : List Expression) then [] else [';']) ++
          ('\n' :: (argumentLines style depth (([] : List Expression).map text) ++
            (trail ++ [')']))) = ('\n' :: trail) ++ [')'] := by
        simp [argumentLines]
      rw [shape] at covers
      have blank : ∀ c ∈ '\n' :: trail, Text.isBlank c = true :=
        List.forall_mem_cons.2 ⟨by decide, trailing⟩
      obtain ⟨last, rest, rfl, isTrail, covers⟩ :=
        covers.of_append_plain fun met => Text.ne_quote_of_isBlank (blank _ met) rfl
      obtain ⟨closing, rest, rfl, isClosing, -, covers⟩ := covers.of_cons (by decide)
      obtain rfl := covers.eq_nil
      have whole := TypesetArguments.last leading
        (isTrail.layout fun c met => .inl (blank c met)) argument
      exact ⟨lineBreak :: margin ++ inside ++ last, closing, by simp, isClosing, whole⟩
    | cons b others =>
      rw [List.isEmpty_cons, if_neg Bool.noConfusion] at covers
      obtain ⟨mark, rest, rfl, isSemicolon, -, covers⟩ := covers.of_cons (by decide)
      obtain ⟨last, closing, rfl, isClosing, later⟩ :=
        ih behind plainBehind (List.cons_ne_nil _ _) covers
      exact ⟨lineBreak :: margin ++ inside ++ mark :: last, closing, by simp, isClosing,
        .next leading argument isSemicolon later⟩

end Forms

/-! ## Expressions -/

section Layouts

variable {P : Text → Prop} {style : Style}

/-- What is no leaf begins with no quote. -/
theorem InRow.head?_layout_ne {e : Expression} (part : InRow P e) (depth : Nat)
    (noLeaf : e.isLeaf = false) : (layout style depth e).head? ≠ some '"' := by
  cases part with
  | leaf => cases noLeaf
  | group row =>
    rw [layout_group]
    unfold groupText
    split <;> simp
  | @call name source arguments known each =>
    obtain ⟨noEmpty, letters⟩ := FunctionName.spells_of_mem_known known
    obtain ⟨c, rest, rfl⟩ := List.exists_cons_of_ne_nil noEmpty
    have noQuote := (FunctionName.spelling (letters c List.mem_cons_self)).2.2.2.1
    have first : (callText style depth (c :: rest) arguments
        (layoutEach style (depth + 1) arguments)).head? = some c := by
      unfold callText
      split
      · rfl
      · split <;> rfl
    rw [layout_call known, first]
    simpa using noQuote
  | operator op =>
    rw [layout_operator]
    exact fun first => Mark.not_mem_lexeme op (by decide) (List.mem_of_head? first)

/-- What is no leaf ends with neither a quote nor a blank. -/
theorem InRow.getLast?_layout {e : Expression} (part : InRow P e) (style : Style) (depth : Nat)
    (noLeaf : e.isLeaf = false) : ∃ c, (layout style depth e).getLast? = some c ∧ c ≠ '"' ∧
      Text.isBlank c = false := by
  have closing : ∀ {t : Text}, (∃ front, t = front ++ [')']) → ∃ c, t.getLast? = some c ∧
      c ≠ '"' ∧ Text.isBlank c = false := by
    rintro t ⟨front, rfl⟩
    exact ⟨')', List.getLast?_concat, by decide⟩
  cases part with
  | leaf => cases noLeaf
  | group row =>
    rw [layout_group]
    exact closing (exists_closing_groupText style depth _ _)
  | call known each =>
    rw [layout_call known]
    exact closing (exists_closing_callText style depth _ _ _)
  | operator op =>
    rw [layout_operator]
    cases op <;> exact ⟨_, rfl, by decide⟩

/-- A row that begins with no leaf begins with no quote. -/
theorem Row.head?_layoutSequence {es : List Expression} (row : Row P es) (depth : Nat)
    (trims : ∀ t, P t → Text.trim t = t) (noLeaf : ∀ f ∈ es.head?, f.isLeaf = false) :
    (layoutSequence style depth es).head? ≠ some '"' := by
  cases row with
  | nil =>
    rw [layoutSequence_nil]
    exact Option.some_ne_none _ ∘ Eq.symm
  | @cons e es part _ behind =>
    obtain ⟨c, first, -⟩ : ∃ c, (layout style depth e).head? = some c ∧ _ :=
      part.head?_layout trims
    have noQuote : (layout style depth e).head? ≠ some '"' :=
      part.head?_layout_ne depth (noLeaf e rfl)
    rw [layoutSequence_cons, List.head?_append, first]
    rwa [first] at noQuote


/-- A part ends with no blank. -/
theorem InRow.exists_getLast?_layout {e : Expression} (part : InRow P e) (style : Style)
    (depth : Nat) (firm : ∀ t, P t → t.FirmToken) :
    ∃ c, (layout style depth e).getLast? = some c ∧ Text.isBlank c = false := by
  cases isLeaf : e.isLeaf with
  | false =>
    obtain ⟨c, last, -, noBlank⟩ := part.getLast?_layout style depth isLeaf
    exact ⟨c, last, noBlank⟩
  | true =>
    obtain ⟨c, first, -⟩ : ∃ c, (layout style depth e).head? = some c ∧ _ :=
      part.head?_layout fun t holds => (firm t holds).trimmed
    obtain ⟨rest, whole⟩ := List.head?_eq_some_iff.1 first
    obtain ⟨d, last⟩ : ∃ d, (layout style depth e).getLast? = some d :=
      ⟨_, List.getLast?_eq_some_getLast (whole ▸ List.cons_ne_nil c rest)⟩
    refine ⟨d, last, ?_⟩
    cases part with
    | leaf holds =>
      have trimmed := ((firm _ holds).leaf style).trimmed
      rw [layout_plain, if_pos List.isEmpty_nil] at last
      exact getLast?_trimEnds (by rwa [← Text.trim, trimmed])
    | group | call | operator => cases isLeaf

/-- A row ends with no blank. -/
theorem Row.getLast?_layoutSequence {es : List Expression} (row : Row P es) (style : Style)
    (depth : Nat) (firm : ∀ t, P t → t.FirmToken) (nonempty : es ≠ []) :
    ∃ c, (layoutSequence style depth es).getLast? = some c ∧ Text.isBlank c = false := by
  induction es with
  | nil => exact absurd rfl nonempty
  | cons e es ih =>
    cases row with
    | cons part _ behind =>
      rw [layoutSequence_cons]
      by_cases more : es = []
      · rw [more, layoutSequence_nil, gapBetween, List.append_nil, List.append_nil]
        exact part.exists_getLast?_layout style depth firm
      · obtain ⟨c, last, noBlank⟩ := ih behind more
        exact ⟨c, by rw [List.getLast?_append, List.getLast?_append, last]; rfl, noBlank⟩

mutual

/-- The marks of a laid out part follow its own parts, if these are known to stay what they are. -/
theorem InRow.typeset {e : Expression} {depth : Nat} {ms : List Mark} (part : InRow P e)
    (firm : ∀ t, P t → t.FirmToken) (shelters : sheltered style depth e = true)
    (filled : ∀ n ∈ e.nodes, n.Filled) (covers : Covers false (layout style depth e) ms) :
    Typeset P style e ms := by
  match part with
  | @InRow.leaf _ t holds visible =>
    rw [layout_plain, if_pos List.isEmpty_nil] at covers
    exact .leaf holds visible (covers.written ((firm t holds).leaf style).firm.steady)
  | @InRow.group _ source parts row =>
    rw [sheltered, Bool.and_eq_true, Bool.or_eq_true, beginsPlainly_iff] at shelters
    rw [nodes, List.forall_mem_cons] at filled
    rw [layout_group] at covers
    have firmRow := row.mono firm
    have closed : (layoutSequence style (depth + 1) parts).LiteralsClosed :=
      Text.literalsClosed_iff.2 (firmRow.shows_layout shelters.2).settled.closed
    have blanks : ∀ n, ∀ c ∈ '\n' :: style.indent n, Text.isBlank c = true := fun n =>
      List.forall_mem_cons.2 ⟨by decide, isBlank_spaces⟩
    have cut : ∃ opening first inside last closing,
        ms = opening :: (first ++ inside ++ last ++ [closing]) ∧ opening.piece = .char '(' ∧
          closing.piece = .char ')' ∧ (∀ m ∈ first, m.isLayout = true) ∧
          (∀ m ∈ last, m.isLayout = true) ∧
            Covers false (layoutSequence style (depth + 1) parts) inside := by
      unfold groupText at covers
      split at covers
      · have none : ∀ c ∈ ([] : Text), Text.isBlank c = true := fun _ met =>
          absurd met List.not_mem_nil
        exact exists_parentheses none none closed (.inl rfl) covers
      · next broken =>
        refine exists_parentheses (blanks (depth + 1)) (blanks depth) closed
          (.inr fun c first => ?_) covers
        obtain ⟨shown, noBlank⟩ :=
          firmRow.head?_layout (fun t => Text.FirmToken.trimmed) first
        exact ⟨noBlank, shelters.1.resolve_left broken c shown⟩
    obtain ⟨opening, first, inside, last, closing, rfl, isOpening, isClosing, leading, trailing,
      covers⟩ := cut
    exact .group isOpening isClosing leading trailing
      (row.typeset firm shelters.2 filled.2 covers)
  | @InRow.call _ name source arguments known each =>
    rw [sheltered, Bool.and_eq_true, Bool.or_eq_true, List.all_eq_true, shelteredEach_eq_all,
      List.all_eq_true] at shelters
    rw [nodes, List.forall_mem_cons] at filled
    have some : arguments ≠ [plain [] []] := filled.1
    have sets : ∀ a ∈ arguments, Sets P style a (layout style (depth + 1) a) := fun a met =>
      (each a met).sets firm (shelters.2 a met) fun n within =>
        filled.2 n (mem_nodesOfEach.2 ⟨a, met, within⟩)
    have noLayout : ∀ m ∈ ([] : List Mark), m.isLayout = true := by simp
    rw [layout_call known, callText, layoutEach_eq_map] at covers
    by_cases none : arguments.isEmpty = true
    · rw [if_pos none] at covers
      obtain ⟨word, opening, rest, rfl, isName, isOpening, covers⟩ := exists_name known covers
      obtain ⟨closing, rest, rfl, isClosing, -, covers⟩ :=
        Covers.of_cons (t := []) covers (by decide)
      obtain rfl := covers.eq_nil
      obtain rfl := List.isEmpty_iff.1 none
      exact .call known some isName isOpening isClosing .none
    · rw [if_neg none] at covers
      rw [List.isEmpty_iff] at none
      have cut : ∃ word opening rest, ms = word ++ opening :: rest ∧ Written name word ∧
          opening.piece = .char '(' ∧ ListCloses P style arguments [] rest := by
        by_cases fits :
            fitsOneLine style arguments (arguments.map (layout style (depth + 1))) = true
        · rw [if_pos fits] at covers
          obtain ⟨word, opening, rest, rfl, isName, isOpening, covers⟩ := exists_name known covers
          exact ⟨word, opening, rest, rfl, isName, isOpening,
            listCloses_joined sets none noLayout covers⟩
        · rw [if_neg fits] at covers
          obtain ⟨word, opening, rest, rfl, isName, isOpening, covers⟩ := exists_name known covers
          refine ⟨word, opening, rest, rfl, isName, isOpening,
            listCloses_lines sets (fun a met c first => ?_) none isBlank_spaces covers⟩
          obtain ⟨shown, noBlank⟩ :=
            ((each a met).mono firm).head?_layout (fun t => Text.FirmToken.trimmed) first
          have plainly := shelters.1.resolve_left
            (by rw [layoutEach_eq_map]; exact fits) a met
          exact ⟨noBlank, beginsPlainly_iff.1 plainly c shown⟩
      obtain ⟨word, opening, rest, rfl, isName, isOpening, inside, closing, rfl, isClosing, list⟩ :=
        cut
      exact .call known some isName isOpening isClosing list
  | .operator op =>
    rw [layout_operator] at covers
    refine .operator (covers.written_of_plain fun c met => ?_)
    obtain ⟨⟨noQuote, -⟩, noConnector, -⟩ := Operator.lexeme_spelling met
    exact ⟨noQuote, noConnector⟩

theorem Row.typeset {es : List Expression} {depth : Nat} {ms : List Mark} (row : Row P es)
    (firm : ∀ t, P t → t.FirmToken) (shelters : shelteredEach style depth es = true)
    (filled : ∀ n ∈ nodesOfEach es, n.Filled)
    (covers : Covers false (layoutSequence style depth es) ms) : TypesetRow P style es ms := by
  match row with
  | .nil =>
    rw [layoutSequence_nil] at covers
    obtain rfl := covers.eq_nil
    exact .nil
  | @Row.cons _ e es part apart behind =>
    rw [shelteredEach, Bool.and_eq_true] at shelters
    rw [nodesOfEach, List.forall_mem_append] at filled
    have settled := ((part.mono firm).shows_layout shelters.1).settled
    have trims : ∀ t, P t → Text.trim t = t := fun t holds => (firm t holds).trimmed
    have meet : (layout style depth e).getLast? ≠ some '"' ∨
        (gapBetween e es ++ layoutSequence style depth es).head? ≠ some '"' := by
      cases leaf : e.isLeaf with
      | false =>
        obtain ⟨c, last, noQuote, -⟩ := part.getLast?_layout style depth leaf
        exact .inl (by rw [last]; simpa using noQuote)
      | true =>
        -- no leaf follows another one
        have noLeaf : ∀ f ∈ es.head?, f.isLeaf = false := fun f isNext => by
          simpa [leaf] using apart f isNext
        exact .inr (Text.head?_append_ne_quote (not_mem_gapBetween e es)
          (behind.head?_layoutSequence depth trims noLeaf))
    rw [layoutSequence_cons] at covers
    obtain ⟨inside, rest, rfl, isPart, covers⟩ :=
      covers.of_append (Text.literalsClosed_iff.2 settled.closed) meet
    obtain ⟨gap, rest, rfl, isGap, covers⟩ :=
      covers.of_append_plain (not_mem_gapBetween e es)
    rw [settled.outside] at isGap covers
    rw [(shows_gapBetween e es).settled.outside] at covers
    exact .cons (part.typeset firm shelters.1 filled.1 isPart) apart
      (isGap.written_of_plain (plain_gap e es)) (behind.typeset firm shelters.2 filled.2 covers)

theorem IsArgument.sets {a : Expression} {depth : Nat} (argument : IsArgument P a)
    (firm : ∀ t, P t → t.FirmToken) (shelters : sheltered style depth a = true)
    (filled : ∀ n ∈ a.nodes, n.Filled) : Sets P style a (layout style depth a) := by
  refine ⟨((argument.mono firm).shows_layout shelters).settled, fun ms covers => ?_⟩
  match argument with
  | .nothing =>
    rw [layout_plain, if_pos List.isEmpty_nil, Style.leaf_nil] at covers
    obtain rfl := covers.eq_nil
    exact .nil
  | .single part =>
    have noGap : Written (gapBetween a []) [] := ⟨by rw [gapBetween, pieces]; rfl, by simp⟩
    have whole := TypesetRow.cons (part.typeset firm shelters filled covers)
      (fun f isNext => by cases isNext) noGap .nil
    rw [part.row_eq]
    simpa using whole
  | @IsArgument.several _ source parts two row =>
    rw [sheltered] at shelters
    rw [nodes, List.forall_mem_cons] at filled
    rw [layout_plain, if_neg (not_isEmpty_of_two two)] at covers
    rw [row_several two]
    exact row.typeset firm shelters filled.2 covers

end

/-- A root has no text of its own: it is empty, or its marks follow its parts. -/
theorem Row.typeset_plain {source : Text} {parts : List Expression} {depth : Nat} {ms : List Mark}
    (row : Row P parts) (nothing : parts = [] → source = []) (firm : ∀ t, P t → t.FirmToken)
    (shelters : sheltered style depth (plain source parts) = true)
    (filled : ∀ n ∈ nodesOfEach parts, n.Filled)
    (covers : Covers false (layout style depth (plain source parts)) ms) :
    TypesetRow P style parts ms := by
  cases parts with
  | nil =>
    rw [nothing rfl, layout_plain, if_pos List.isEmpty_nil, Style.leaf_nil] at covers
    obtain rfl := covers.eq_nil
    exact .nil
  | cons part parts =>
    rw [sheltered] at shelters
    rw [layout_plain, if_neg Bool.noConfusion] at covers
    exact row.typeset firm shelters filled covers

/-- A root ends with no blank. -/
theorem Row.dropEndWhile_layout_plain {source : Text} {parts : List Expression} (row : Row P parts)
    (style : Style) (depth : Nat) (nothing : parts = [] → source = [])
    (firm : ∀ t, P t → t.FirmToken) :
    dropEndWhile Text.isBlank (layout style depth (plain source parts)) =
      layout style depth (plain source parts) := by
  cases parts with
  | nil =>
    rw [nothing rfl, layout_plain, if_pos List.isEmpty_nil, Style.leaf_nil]
    rfl
  | cons part parts =>
    obtain ⟨c, last, noBlank⟩ := row.getLast?_layoutSequence style depth firm
      (List.cons_ne_nil part parts)
    obtain ⟨front, whole⟩ := List.getLast?_eq_some_iff.1 last
    rw [layout_plain, if_neg Bool.noConfusion, whole]
    exact dropEndWhile_concat_of_not noBlank front

end Layouts

end Expression

end SheetFormula
