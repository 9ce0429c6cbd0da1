import SheetFormula.Proofs.Format.Laid

/-!
# Margins of lines

The lines of a beautified formula show its nesting. Each line begins with one indentation step for
every parenthesis around it that a line break follows, and the first line of an argument with the
connector of that depth; apart from these margins, the lines are the same for all indentation steps
and with or without connectors (`margins_beautify`). The lines are read off the text alone, with
what its parentheses open.

## Main definitions

* `LaidLine`, `laidLines` — the lines of a text with their depths and the arguments they begin
* `LaidLine.margin`, `LaidLine.rest` — the margin that belongs to a line, and the text behind it
-/

namespace SheetFormula

/-! ## Lines of a text -/

/-- The number of arguments of the call that a parenthesis opens. -/
def Opening.arguments? : Opening → Option Nat
  | group => none
  | call _ arguments => some arguments

/-- A parenthesis that is still open. -/
structure OpenParenthesis where
  /-- Whether a line break follows it directly. -/
  isBroken : Bool
  /-- For the parenthesis of a call, how many arguments have not begun a line yet. -/
  arguments? : Option Nat
  deriving DecidableEq

/-- A line of a text. -/
structure LaidLine where
  /-- The number of broken parentheses around the line. -/
  depth : Nat
  /-- If the line begins an argument of a broken call, whether this is the last one. -/
  argument? : Option Bool
  text : Text
  deriving DecidableEq

/-- The pieces up to the next line break. -/
def restOfLine (ps : List Piece) : List Piece :=
  ps.takeWhile (· != .char '\n')

/-- Whether the first piece of the line that is no blank closes a broken parenthesis. -/
def closesBroken (enclosing : List OpenParenthesis) (line : List Piece) : Bool :=
  line.find? (!·.isBlank) == some (.char ')') && enclosing.head?.any (·.isBroken)

/-- The number of broken parentheses around a line, without one that its first piece closes. -/
def depthOfLine (enclosing : List OpenParenthesis) (line : List Piece) : Nat :=
  enclosing.countP (·.isBroken) - if closesBroken enclosing line then 1 else 0

/-- Whether the line begins the last argument of a broken call, if it begins one: the line stands
directly in the parentheses of a broken call, behind the `(` or a separator. -/
def argumentOfLine? (enclosing : List OpenParenthesis) (before : Option Piece)
    (line : List Piece) : Option Bool :=
  match enclosing with
  | ⟨true, some left⟩ :: _ =>
    if (before == some (.char '(') || before == some (.char ';')) &&
        !closesBroken enclosing line then some (left == 1)
    else none
  | _ => none

/-- The same parentheses, behind the begin of an argument of the innermost one. -/
def behindArgument : List OpenParenthesis → List OpenParenthesis
  | ⟨isBroken, some left⟩ :: outer => ⟨isBroken, some (left - 1)⟩ :: outer
  | enclosing => enclosing

/-- The lines that begin among pieces, inside of open parentheses and behind the piece `before`;
`openings` tells what the further parentheses open. -/
def linesFrom (openings : List Opening) (enclosing : List OpenParenthesis)
    (before : Option Piece) : List Piece → List LaidLine
  | [] => []
  | p :: ps =>
    if p = .char '\n' then
      let argument? := argumentOfLine? enclosing before (restOfLine ps)
      ⟨depthOfLine enclosing (restOfLine ps), argument?, textOf (restOfLine ps)⟩ ::
        linesFrom openings (if argument?.isSome then behindArgument enclosing else enclosing)
          (some p) ps
    else if p = .char '(' then
      linesFrom openings.tail
        (⟨ps.head? == some (.char '\n'), openings.head?.bind Opening.arguments?⟩ :: enclosing)
        (some p) ps
    else if p = .char ')' then linesFrom openings enclosing.tail (some p) ps
    else linesFrom openings enclosing (some p) ps

/-- The lines of a text whose parentheses open what `openings` tells. -/
def laidLines (openings : List Opening) (t : Text) : List LaidLine :=
  ⟨0, none, textOf (restOfLine (pieces t))⟩ :: linesFrom openings [] none (pieces t)

/-- The margin that belongs to a line in a style. -/
def LaidLine.margin (style : Style) (line : LaidLine) : Text :=
  style.margin line.depth line.argument?

/-- What stands behind the margin. -/
def LaidLine.rest (style : Style) (line : LaidLine) : Text :=
  line.text.drop (line.margin style).length

namespace Tile

/-! ## Lines of tiles -/

/-- The tiles up to the next line break. -/
def upToBreak (ts : List Tile) : List Tile :=
  ts.takeWhile (!·.isBreak)

/-- The lines that begin among tiles. -/
def lines (style : Style) : List Tile → List LaidLine
  | [] => []
  | piece _ :: ts => lines style ts
  | lineBreak depth argument? :: ts =>
    ⟨depth, argument?, style.margin depth argument? ++ print style (upToBreak ts)⟩ ::
      lines style ts

/-- No line begins with a blank behind its margin. -/
def LinesStart : List Tile → Prop
  | [] => True
  | piece _ :: ts => LinesStart ts
  | lineBreak _ _ :: ts => Starts ts ∧ LinesStart ts

variable {style other : Style} {depth : Nat} {argument? : Option Bool} {p : Piece}
  {ts us : List Tile}

theorem anyBreak_upToBreak (ts : List Tile) : anyBreak (upToBreak ts) = false := by
  rw [anyBreak, List.any_eq_false]
  intro t met
  have pieces : (upToBreak ts).all (!·.isBreak) = true := List.all_takeWhile
  simpa using List.all_eq_true.1 pieces t met

theorem head?_print_upToBreak (starts : Starts ts) :
    (print style (upToBreak ts)).head? ≠ some ' ' := by
  cases ts with
  | nil => rintro ⟨⟩
  | cons t ts =>
    cases t with
    | lineBreak => rintro ⟨⟩
    | piece p =>
      obtain ⟨c, first, noBlank⟩ := starts p rfl
      have whole : print style (upToBreak (piece p :: ts)) =
          p.text ++ print style (upToBreak ts) := rfl
      rw [whole, List.head?_append, first]
      rintro ⟨⟩
      cases noBlank

/-- A line of tiles has the margin that belongs to it, and the same text behind it in every
style. -/
theorem margins_lines (started : LinesStart ts) :
    (∀ line ∈ lines style ts, line.margin style <+: line.text ∧
      (line.rest style).head? ≠ some ' ') ∧
    (lines other ts).map (fun line => (line.depth, line.rest other)) =
      (lines style ts).map fun line => (line.depth, line.rest style) := by
  induction ts with
  | nil => exact ⟨fun _ met => absurd met List.not_mem_nil, rfl⟩
  | cons t ts ih =>
    cases t with
    | piece p => exact ih started
    | lineBreak depth argument? =>
      obtain ⟨margins, same⟩ := ih started.2
      have rest : ∀ s : Style, LaidLine.rest s ⟨depth, argument?,
          s.margin depth argument? ++ print s (upToBreak ts)⟩ = print s (upToBreak ts) :=
        fun s => List.drop_left
      refine ⟨List.forall_mem_cons.2 ⟨⟨List.prefix_append _ _, ?_⟩, margins⟩, ?_⟩
      · rw [rest]
        exact head?_print_upToBreak started.1
      · rw [lines, lines, List.map_cons, List.map_cons, same, rest, rest,
          print_eq_of_not_anyBreak (anyBreak_upToBreak ts)]

/-! ## Reading written tiles -/

/-- Whether the tiles begin with a `)`. -/
def closes : List Tile → Bool
  | piece p :: _ => p == .char ')'
  | _ => false

theorem restOfLine_write (inLine : ∀ t ∈ ts, t.InLine) :
    restOfLine (write style ts) = write style (upToBreak ts) := by
  induction ts with
  | nil => rfl
  | cons t ts ih =>
    obtain ⟨first, others⟩ := List.forall_mem_cons.1 inLine
    cases t with
    | lineBreak => rfl
    | piece p =>
      have noBreak : p ≠ .char '\n' := by
        rintro rfl
        exact first List.mem_cons_self
      have whole : write style (upToBreak (piece p :: ts)) = p :: write style (upToBreak ts) := rfl
      rw [write_piece, whole, ← ih others, restOfLine, List.takeWhile_cons_of_pos (by simpa)]
      rfl

theorem restOfLine_margin (ps : List Piece) :
    restOfLine ((style.margin depth argument?).map .char ++ ps) =
      (style.margin depth argument?).map .char ++ restOfLine ps := by
  refine List.takeWhile_append_of_pos fun p met => ?_
  obtain ⟨c, isMargin, rfl⟩ := List.mem_map.1 met
  simpa using (plain_margin c isMargin).1

/-- The first piece of a line of tiles that is no blank is a `)` only if its first tile is. -/
theorem find?_line (style : Style) (depth : Nat) (argument? : Option Bool)
    (inLine : ∀ t ∈ ts, t.InLine) (starts : Starts ts)
    (noArgument : argument? = none ∨ closes ts = false) :
    ((restOfLine ((style.margin depth argument?).map .char ++ write style ts)).find?
      (!·.isBlank) == some (.char ')')) = closes ts := by
  have behind : (write style (upToBreak ts)).find? (!·.isBlank) =
      (write style (upToBreak ts)).head? ∧
      ((write style (upToBreak ts)).head? == some (.char ')')) = closes ts := by
    cases ts with
    | nil => exact ⟨rfl, rfl⟩
    | cons t ts =>
      cases t with
      | lineBreak => exact ⟨rfl, rfl⟩
      | piece p =>
        obtain ⟨c, first, noBlank⟩ := starts p rfl
        have noBlank : p.isBlank = false := by
          cases p with
          | char d => exact Option.some.inj first ▸ noBlank
          | literal => rfl
        have whole : write style (upToBreak (piece p :: ts)) = p :: write style (upToBreak ts) :=
          rfl
        rw [whole, List.find?_cons_of_pos (by simp [noBlank])]
        exact ⟨rfl, rfl⟩
  rw [restOfLine_margin, restOfLine_write inLine, List.find?_append, behind.1]
  cases found : ((style.margin depth argument?).map Piece.char).find? (!·.isBlank) with
  | none => exact behind.2
  | some p =>
    -- only the connector of an argument is no blank
    obtain ⟨c, isMargin, rfl⟩ := List.mem_map.1 (List.mem_of_find?_eq_some found)
    have visible : c ≠ ' ' := by
      rintro rfl
      exact absurd (List.find?_some found) (by decide)
    have noClosing : (some (Piece.char c) == some (.char ')')) = false := by
      simpa using (plain_margin c isMargin).2.2
    have isArgument : argument? ≠ none := by
      rintro rfl
      exact visible (List.eq_of_mem_replicate (margin_none ▸ isMargin))
    rw [Option.some_or, noClosing, noArgument.resolve_left isArgument]

/-- Tiles whose written lines are the lines of the tiles, when read inside of open parentheses and
behind a piece. -/
structure Reads (style : Style) (os : List Opening) (enclosing : List OpenParenthesis)
    (before : Option Piece) (ts : List Tile) : Prop where
  lines : linesFrom os enclosing before (write style ts) = Tile.lines style ts
  inLine : ∀ t ∈ ts, t.InLine
  started : LinesStart ts

variable {os : List Opening} {enclosing : List OpenParenthesis} {before : Option Piece}

/-- Characters that neither break lines nor open or close anything are passed over. -/
theorem linesFrom_chars {t : Text} (plain : ∀ c ∈ t, c ≠ '\n' ∧ c ≠ '(' ∧ c ≠ ')')
    {ps : List Piece} {found : List LaidLine}
    (behind : ∀ before, linesFrom os enclosing before ps = found) (before : Option Piece) :
    linesFrom os enclosing before (t.map .char ++ ps) = found := by
  induction t generalizing before with
  | nil => exact behind before
  | cons c t ih =>
    obtain ⟨⟨noBreak, noOpening, noClosing⟩, others⟩ := List.forall_mem_cons.1 plain
    rw [List.map_cons, List.cons_append, linesFrom, if_neg (by simpa), if_neg (by simpa),
      if_neg (by simpa)]
    exact ih others _

theorem Reads.piece (plain : p.Plain) (behind : Reads style os enclosing (some p) ts) :
    Reads style os enclosing before (piece p :: ts) := by
  obtain ⟨noBreak, noOpening, noClosing⟩ := plain.ne
  refine ⟨?_, List.forall_mem_cons.2 ⟨plain.noLineBreak, behind.inLine⟩, behind.started⟩
  rw [write_piece, linesFrom, if_neg noBreak, if_neg noOpening, if_neg noClosing, behind.lines]
  rfl

/-- A parenthesis is broken if a line break follows. -/
theorem Reads.opening {o : Opening}
    (behind : Reads style os (⟨(ts.head?.any isBreak), o.arguments?⟩ :: enclosing)
      (some (.char '(')) ts) :
    Reads style (o :: os) enclosing before (char '(' :: ts) := by
  refine ⟨?_, List.forall_mem_cons.2 ⟨inLine_char (by decide), behind.inLine⟩, behind.started⟩
  rw [write_char, linesFrom, if_neg (by decide), if_pos rfl, head?_write behind.inLine]
  exact behind.lines

theorem Reads.closing (behind : Reads style os enclosing.tail (some (.char ')')) ts) :
    Reads style os enclosing before (char ')' :: ts) := by
  refine ⟨?_, List.forall_mem_cons.2 ⟨inLine_char (by decide), behind.inLine⟩, behind.started⟩
  rw [write_char, linesFrom, if_neg (by decide), if_neg (by decide), if_pos rfl]
  exact behind.lines

/-- A line break, if the line has the depth and the argument of the tile. -/
theorem Reads.lineBreak {line : List Piece}
    (isLine : line = restOfLine ((style.margin depth argument?).map .char ++ write style ts))
    (deep : depthOfLine enclosing line = depth)
    (begins : argumentOfLine? enclosing before line = argument?) (starts : Starts ts)
    (behind : ∀ before, Reads style os
      (if argument?.isSome then behindArgument enclosing else enclosing) before ts) :
    Reads style os enclosing before (lineBreak depth argument? :: ts) := by
  subst isLine
  have inLine := (behind none).inLine
  refine ⟨?_, List.forall_mem_cons.2 ⟨trivial, inLine⟩, ⟨starts, (behind none).started⟩⟩
  have text : textOf (restOfLine ((style.margin depth argument?).map .char ++ write style ts)) =
      style.margin depth argument? ++ print style (upToBreak ts) := by
    rw [restOfLine_margin, restOfLine_write inLine, textOf_append, textOf_chars]
    rfl
  rw [write_lineBreak, linesFrom, if_pos rfl, deep, begins, text, Tile.lines]
  exact congrArg _ (linesFrom_chars plain_margin (fun before => (behind before).lines) _)

variable {outer : List OpenParenthesis} {left : Option Nat}

/-- The line of a `)`. -/
theorem Reads.closingLine (deep : outer.countP (·.isBroken) = depth)
    (behind : ∀ before, Reads style os outer before ts) :
    Reads style os (⟨true, left⟩ :: outer) before
      (Tile.lineBreak depth none :: char ')' :: ts) := by
  have rest : ∀ before, Reads style os (⟨true, left⟩ :: outer) before (char ')' :: ts) :=
    fun _ => .closing (behind _)
  have starts : Starts (char ')' :: ts) := by
    rintro p ⟨⟩
    exact ⟨')', rfl, by decide⟩
  have closing := find?_line style depth none (rest none).inLine starts (.inl rfl)
  generalize isLine : restOfLine _ = line at closing
  have closed : closesBroken (⟨true, left⟩ :: outer) line = true := by
    rw [closesBroken, closing]
    rfl
  refine .lineBreak isLine.symm ?_ ?_ starts rest
  · simp [depthOfLine, closed, deep]
  · cases left <;> simp [argumentOfLine?, closed]

/-- The first line in a group, and of an argument. -/
theorem Reads.openingLine (deep : outer.countP (·.isBroken) + 1 = depth)
    (atStart : before = some (.char '(') ∨ before = some (.char ';'))
    (noClosing : closes ts = false) (starts : Starts ts)
    (behind : ∀ before, Reads style os (⟨true, left.map (· - 1)⟩ :: outer) before ts) :
    Reads style os (⟨true, left⟩ :: outer) before
      (Tile.lineBreak depth (left.map (· == 1)) :: ts) := by
  have visible := find?_line style depth (left.map (· == 1)) (behind none).inLine starts
    (.inr noClosing)
  generalize isLine : restOfLine _ = line at visible
  have unclosed : closesBroken (⟨true, left⟩ :: outer) line = false := by
    rw [closesBroken, visible, noClosing]
    rfl
  refine .lineBreak isLine.symm ?_ ?_ starts ?_
  · simp [depthOfLine, unclosed, deep]
  · cases left with
    | none => rfl
    | some n => rcases atStart with rfl | rfl <;> simp [argumentOfLine?, unclosed]
  · cases left <;> exact behind

/-! ## Laid tiles -/

theorem Starts.append (front : Starts ts) (behind : Starts us) : Starts (ts ++ us) := by
  cases ts with
  | nil => exact behind
  | cons => exact front

/-- No tiles that are laid begin with a `)`. -/
theorem Laid.closes_append (laid : Laid depth os ts) (behind : closes us = false) :
    closes (ts ++ us) = false := by
  cases laid with
  | nil => exact behind
  | piece plain =>
    refine beq_eq_false_iff_ne.2 ?_
    rintro rfl
    cases plain.noParenthesis
  | unbroken => rfl
  | group => rfl
  | call => rfl

mutual

/-- Laid tiles are read inside of as many broken parentheses as they are deep; on one line, inside
of any. -/
theorem Laid.reads {style : Style} {depth : Nat} {os os' : List Opening} {ts us : List Tile}
    (laid : Laid depth os ts) (enclosing : List OpenParenthesis)
    (deep : anyBreak ts = true → enclosing.countP (·.isBroken) = depth)
    (behind : ∀ before, Reads style os' enclosing before us) (before : Option Piece) :
    Reads style (os ++ os') enclosing before (ts ++ us) := by
  match laid with
  | .nil => exact behind before
  | .piece plain rest => exact .piece plain (rest.reads enclosing deep behind _)
  | @Laid.unbroken _ o os₁ os₂ ts₁ ts₂ inside oneLine rest =>
    have behindRest := rest.reads enclosing
      (fun broken => deep (by simp [broken])) behind
    have flat := head?_of_not_anyBreak oneLine ')' (ts₂ ++ us)
    have whole : Reads style (o :: (os₁ ++ (os₂ ++ os'))) enclosing before
        (char '(' :: (ts₁ ++ char ')' :: (ts₂ ++ us))) :=
      .opening (inside.reads _ (fun broken => by simp [oneLine] at broken)
        (fun _ => .closing (behindRest _)) _)
    simpa only [List.append_assoc, List.cons_append] using whole
  | @Laid.group _ os₁ os₂ ts₁ ts₂ inside starts rest =>
    replace deep := deep rfl
    have behindRest := rest.reads enclosing (fun _ => deep) behind
    have closingLine : ∀ before, Reads style (os₂ ++ os') (⟨true, none⟩ :: enclosing) before
        (.lineBreak depth none :: char ')' :: (ts₂ ++ us)) :=
      fun _ => .closingLine deep behindRest
    have content := inside.reads (⟨true, none⟩ :: enclosing) (fun _ => by simp [deep]) closingLine
    have firstLine : Reads style (os₁ ++ (os₂ ++ os')) (⟨true, none⟩ :: enclosing)
        (some (.char '(')) (.lineBreak (depth + 1) none :: (ts₁ ++ _)) :=
      .openingLine (by rw [deep]) (.inl rfl) (inside.closes_append rfl)
        (starts.append fun p isFirst => by cases isFirst) content
    have whole : Reads style (.group :: (os₁ ++ (os₂ ++ os'))) enclosing before
        (char '(' :: .lineBreak (depth + 1) none :: (ts₁ ++ _)) := .opening firstLine
    simpa only [List.append_assoc, List.cons_append] using whole
  | @Laid.call _ n name os₁ os₂ ts₁ ts₂ inside rest =>
    replace deep := deep (by simp)
    have behindRest := rest.reads enclosing (fun _ => deep) behind
    have closingLine : ∀ before, Reads style (os₂ ++ os') (⟨true, some 0⟩ :: enclosing) before
        (.lineBreak depth none :: char ')' :: (ts₂ ++ us)) :=
      fun _ => .closingLine deep behindRest
    have lines : Reads style (os₁ ++ (os₂ ++ os')) (⟨true, some n⟩ :: enclosing)
        (some (.char '(')) (ts₁ ++ _) :=
      inside.reads enclosing (by rw [deep]) rfl (fun p isFirst => by cases isFirst) closingLine
        (.inl rfl)
    have broken := inside.head? (.lineBreak depth none :: char ')' :: (ts₂ ++ us))
    have whole : Reads style (.call name n :: (os₁ ++ (os₂ ++ os'))) enclosing before
        (char '(' :: (ts₁ ++ _)) := .opening (broken.symm ▸ lines)
    simpa only [List.append_assoc, List.cons_append] using whole

theorem LaidArguments.reads {style : Style} {depth n : Nat} {os os' : List Opening}
    {ts us : List Tile} (laid : LaidArguments depth n os ts) (outer : List OpenParenthesis)
    (deep : outer.countP (·.isBroken) + 1 = depth) (noClosing : closes us = false)
    (starts : Starts us)
    (behind : ∀ before, Reads style os' (⟨true, some 0⟩ :: outer) before us)
    {before : Option Piece}
    (atStart : before = some (.char '(') ∨ before = some (.char ';')) :
    Reads style (os ++ os') (⟨true, some n⟩ :: outer) before (ts ++ us) := by
  match laid with
  | .last argument startsArgument =>
    exact .openingLine deep atStart (argument.closes_append noClosing)
      (startsArgument.append starts)
      (argument.reads (⟨true, some 0⟩ :: outer) (fun _ => by simp [deep]) behind)
  | @LaidArguments.next _ n os₁ os₂ ts₁ ts₂ argument startsArgument others =>
    have notLast : (n + 1 == 1) = false := by simp [others.pos.ne']
    have behindOthers : ∀ before, Reads style (os₂ ++ os') (⟨true, some n⟩ :: outer) before
        (char ';' :: (ts₂ ++ us)) := fun _ =>
      .piece ⟨rfl, by decide⟩ (others.reads outer deep noClosing starts behind (.inr rfl))
    have whole : Reads style (os₁ ++ (os₂ ++ os')) (⟨true, some (n + 1)⟩ :: outer) before
        (.lineBreak depth (some (n + 1 == 1)) :: (ts₁ ++ char ';' :: (ts₂ ++ us))) :=
      .openingLine deep atStart (argument.closes_append rfl)
        (startsArgument.append fun p isFirst => by cases isFirst; exact ⟨';', rfl, by decide⟩)
        (argument.reads (⟨true, some n⟩ :: outer) (fun _ => by simp [deep]) behindOthers)
    rw [notLast] at whole
    simpa only [List.append_assoc, List.cons_append] using whole

end

/-- The lines of a whole text begin as if a break stood in front of it. -/
theorem Laid.laidLines {openings : List Opening} {t : Text} (laid : Laid 0 openings ts)
    (starts : Starts ts) (written : pieces t = write style ts) :
    SheetFormula.laidLines openings t = Tile.lines style (lineBreak 0 none :: ts) ∧
      LinesStart (lineBreak 0 none :: ts) := by
  have nothing : ∀ before, Reads style [] [] before [] :=
    fun _ => ⟨rfl, fun _ met => absurd met List.not_mem_nil, trivial⟩
  have whole := laid.reads [] (fun _ => rfl) nothing none
  rw [List.append_nil, List.append_nil] at whole
  have noMargin : style.margin 0 none = [] := by
    rw [margin_none, Style.indent, Nat.mul_zero]
    rfl
  refine ⟨?_, starts, whole.started⟩
  rw [SheetFormula.laidLines, written, whole.lines, restOfLine_write whole.inLine, Tile.lines,
    noMargin]
  rfl

end Tile

/-- In a style with short calls only, the lines of an accepted formula without line breaks have the
margins that belong to them, and in all styles that agree they have the same depths and texts. -/
theorem margins_beautify {style other : Style} {t : Text} {tree : Expression}
    (narrow : style.indentSize ≤ widestIndent) (narrowOther : other.indentSize ≤ widestIndent)
    (agrees : other.Agrees style) (short : style.maxInlineLength < groupWidthLimit + 4)
    (accepted : (Formula.ofText t).tree? = .ok tree)
    (noLineBreak : '\n' ∉ (Formula.ofText t).body) :
    (∀ line ∈ laidLines tree.openings (beautify style t),
      line.margin style <+: line.text ∧ (line.rest style).head? ≠ some ' ') ∧
    (laidLines tree.openings (beautify other t)).map (fun line => (line.depth, line.rest other)) =
      (laidLines tree.openings (beautify style t)).map
        fun line => (line.depth, line.rest style) := by
  obtain ⟨ts, laid, starts, written⟩ := Formula.exists_laid short accepted noLineBreak
  have here := laid.laidLines starts (written style ⟨rfl, rfl, rfl⟩ narrow)
  have there := laid.laidLines starts (written other agrees narrowOther)
  rw [here.1, there.1]
  exact Tile.margins_lines here.2

/-- A broken call in another one, and a group broken for the call in it. -/
theorem margins_beautify_nested : ∃ tree,
    (Formula.ofText "=if(sum(a1,abs(b2)),(c3-now()),\"x\")".toList).tree? = .ok tree ∧
      (∀ line ∈ laidLines tree.openings
          (beautify .standard "=if(sum(a1,abs(b2)),(c3-now()),\"x\")".toList),
        line.margin .standard <+: line.text ∧ (line.rest .standard).head? ≠ some ' ') ∧
      (laidLines tree.openings (beautify
          { Style.standard with indentSize := 2, useNestingIndicators := false }
          "=if(sum(a1,abs(b2)),(c3-now()),\"x\")".toList)).map
        (fun line => (line.depth,
          line.rest { Style.standard with indentSize := 2, useNestingIndicators := false })) =
      (laidLines tree.openings
          (beautify .standard "=if(sum(a1,abs(b2)),(c3-now()),\"x\")".toList)).map
        fun line => (line.depth, line.rest .standard) := by
  have isOk :
      (Formula.ofText "=if(sum(a1,abs(b2)),(c3-now()),\"x\")".toList).tree?.isOk = true := by
    decide +kernel
  cases accepted : (Formula.ofText "=if(sum(a1,abs(b2)),(c3-now()),\"x\")".toList).tree? with
  | error fault => rw [accepted] at isOk; cases isOk
  | ok tree =>
    exact ⟨tree, rfl, margins_beautify (by decide) (by decide) ⟨rfl, rfl, rfl⟩ (by decide) accepted
      (by decide +kernel)⟩

example : (laidLines [.call "IF".toList 2, .group]
    "IF(\n    ├─ (\n        a\n    );\n    └─ b\n)".toList).map
      (fun line => (line.depth, line.argument?)) =
    [(0, none), (1, some false), (2, none), (1, none), (1, some true), (0, none)] := by
  decide +kernel

end SheetFormula
