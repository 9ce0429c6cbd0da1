import SheetFormula.Proofs.Format.Firm
import SheetFormula.Proofs.Format.Unbroken

/-!
# Tiles

A layout is put together from tiles: the pieces of a text, and the breaks between its lines, which
know how deep the next line stands and whether it begins an argument. Only what a break is written
as depends on the indentation step and on the connectors of a style. The layout of an expression is
the text of its tiles (`Expression.InRow.print_tiles`).

## Main definitions

* `Tile` — a piece, or a line break
* `Style.margin` — what stands in front of a line
* `Tile.write`, `Tile.print` — the pieces that tiles are written as, and their text
* `Tile.ofGroup`, `Tile.ofArguments` — the forms of groups and argument lists
* `Expression.tiles`, `Expression.tilesOfRow`, `Expression.tilesOfEach` — the layout of an
  expression, of parts in a row, and of single parts
-/

namespace SheetFormula

/-- A part of a layout. -/
inductive Tile where
  | piece (p : Piece)
  /-- The break before a line at a depth. If the line begins an argument of a call, `argument?`
  tells whether this is the last one. -/
  | lineBreak (depth : Nat) (argument? : Option Bool)

/-- The indentation of a line at a depth, and the connector of an argument that begins there. -/
def Style.margin (style : Style) (depth : Nat) (argument? : Option Bool) : Text :=
  Text.spaces (style.indentSize * depth) ++
    match argument? with
    | none => []
    | some isLast =>
      if style.useNestingIndicators then
        Text.spaces (2 * (depth - 1)) ++ [if isLast then '└' else '├', '─', ' ']
      else []

namespace Tile

/-- A character outside literals. -/
def char (c : Char) : Tile :=
  piece (.char c)

/-- The pieces of a text. -/
def ofText (t : Text) : List Tile :=
  (pieces t).map piece

/-- The characters of a text without literals. -/
def ofChars (t : Text) : List Tile :=
  t.map char

def isBreak : Tile → Bool
  | piece _ => false
  | lineBreak _ _ => true

/-- Whether one of the tiles is a line break. -/
def anyBreak (ts : List Tile) : Bool :=
  ts.any isBreak

/-- The pieces that tiles are written as in a style. -/
def write (style : Style) : List Tile → List Piece
  | [] => []
  | piece p :: ts => p :: write style ts
  | lineBreak depth argument? :: ts =>
    .char '\n' :: ((style.margin depth argument?).map .char ++ write style ts)

/-- The text that tiles make up in a style. -/
def print (style : Style) (ts : List Tile) : Text :=
  textOf (write style ts)

/-- A group at a depth, from the tiles of its parts. -/
def ofGroup (style : Style) (depth : Nat) (holdsCall : Bool) (content : List Tile) : List Tile :=
  if groupFits holdsCall (print style content) then char '(' :: (content ++ [char ')'])
  else
    char '(' :: lineBreak (depth + 1) none :: (content ++ [lineBreak depth none, char ')'])

/-- Arguments on one line. -/
def inline : List (List Tile) → List Tile
  | [] => []
  | [ts] => ts
  | ts :: tss => ts ++ char ';' :: char ' ' :: inline tss

/-- Arguments with a line for each, at a depth. -/
def onLines (depth : Nat) : List (List Tile) → List Tile
  | [] => []
  | ts :: tss =>
    lineBreak depth (some tss.isEmpty) ::
      (ts ++ ((if tss.isEmpty then [] else [char ';']) ++ onLines depth tss))

/-- The argument list of a call at a depth, from the tiles of its arguments. -/
def ofArguments (style : Style) (depth : Nat) (arguments : List Expression)
    (tss : List (List Tile)) : List Tile :=
  char '(' ::
    if fitsOneLine style arguments (tss.map (print style)) then inline tss ++ [char ')']
    else onLines (depth + 1) tss ++ [lineBreak depth none, char ')']

end Tile

namespace Expression

mutual

/-- The layout of an expression at a depth. -/
def tiles (style : Style) (depth : Nat) : Expression → List Tile
  | plain source parts =>
    if parts.isEmpty then Tile.ofText (style.leaf source) else tilesOfRow style depth parts
  | group _ parts =>
    Tile.ofGroup style depth (anyContainsCall parts) (tilesOfRow style (depth + 1) parts)
  | call name _ arguments =>
    Tile.ofChars name ++
      Tile.ofArguments style depth arguments (tilesOfEach style (depth + 1) arguments)
  | operator op => Tile.ofChars op.lexeme

/-- The layout of parts in a row at a depth, with spaces where they belong. -/
def tilesOfRow (style : Style) (depth : Nat) : List Expression → List Tile
  | [] => []
  | e :: es => tiles style depth e ++ (Tile.ofChars (gapBetween e es) ++ tilesOfRow style depth es)

/-- The layout of each of several expressions at a depth. -/
def tilesOfEach (style : Style) (depth : Nat) : List Expression → List (List Tile)
  | [] => []
  | e :: es => tiles style depth e :: tilesOfEach style depth es

end

theorem tilesOfEach_eq_map {style : Style} {depth : Nat} (es : List Expression) :
    tilesOfEach style depth es = es.map (tiles style depth) := by
  induction es with
  | nil => rw [tilesOfEach, List.map_nil]
  | cons e es ih => rw [tilesOfEach, ih, List.map_cons]

end Expression

/-! ## Written tiles -/

namespace Tile

variable {style other : Style} {depth : Nat} {ts us : List Tile} {tss : List (List Tile)}

@[simp] theorem write_nil : write style [] = [] := rfl

@[simp] theorem write_piece {p : Piece} : write style (piece p :: ts) = p :: write style ts := rfl

@[simp] theorem write_char {c : Char} : write style (char c :: ts) = .char c :: write style ts :=
  rfl

@[simp] theorem write_lineBreak {argument? : Option Bool} :
    write style (lineBreak depth argument? :: ts) =
      .char '\n' :: ((style.margin depth argument?).map .char ++ write style ts) :=
  rfl

@[simp] theorem write_append : write style (ts ++ us) = write style ts ++ write style us := by
  induction ts with
  | nil => rfl
  | cons t ts ih => cases t <;> simp [ih]

@[simp] theorem write_map_piece (ps : List Piece) : write style (ps.map piece) = ps := by
  induction ps with
  | nil => rfl
  | cons p ps ih => rw [List.map_cons, write_piece, ih]

@[simp] theorem write_ofText (t : Text) : write style (ofText t) = pieces t :=
  write_map_piece _

theorem ofChars_eq_map_piece (t : Text) : ofChars t = (t.map .char).map piece := by
  rw [List.map_map]
  rfl

@[simp] theorem write_ofChars (t : Text) : write style (ofChars t) = t.map .char := by
  rw [ofChars_eq_map_piece, write_map_piece]

@[simp] theorem anyBreak_append : anyBreak (ts ++ us) = (anyBreak ts || anyBreak us) :=
  List.any_append

@[simp] theorem anyBreak_char {c : Char} : anyBreak (char c :: ts) = anyBreak ts := rfl

@[simp] theorem anyBreak_lineBreak {argument? : Option Bool} :
    anyBreak (lineBreak depth argument? :: ts) = true := rfl

@[simp] theorem anyBreak_map_piece (ps : List Piece) : anyBreak (ps.map piece) = false := by
  rw [anyBreak, List.any_map, List.any_eq_false]
  exact fun _ _ => Bool.false_ne_true

@[simp] theorem anyBreak_ofChars (t : Text) : anyBreak (ofChars t) = false := by
  rw [ofChars_eq_map_piece, anyBreak_map_piece]

/-- Tiles without breaks are written as the same pieces in all styles. -/
theorem write_eq_of_not_anyBreak (unbroken : anyBreak ts = false) :
    write style ts = write other ts := by
  induction ts with
  | nil => rfl
  | cons t ts ih =>
    cases t with
    | piece p => rw [write_piece, write_piece, ih unbroken]
    | lineBreak depth argument? => cases unbroken

theorem anyBreak_inline (each : ∀ ts ∈ tss, anyBreak ts = false) :
    anyBreak (inline tss) = false := by
  induction tss with
  | nil => rfl
  | cons ts tss ih =>
    obtain ⟨first, others⟩ := List.forall_mem_cons.1 each
    cases tss with
    | nil => exact first
    | cons => simp [inline, first, ih others]

/-- The margin of an argument is its indentation with the connector. -/
theorem margin_argument (isLast : Bool) :
    style.margin (depth + 1) (some isLast) = style.indent (depth + 1) ++
      if style.useNestingIndicators then argumentConnector (depth + 1) isLast else [] :=
  rfl

theorem margin_none : style.margin depth none = style.indent depth :=
  List.append_nil _

/-- Margins are made of spaces and connectors. -/
theorem mem_margin {argument? : Option Bool} {c : Char} (met : c ∈ style.margin depth argument?) :
    c ∈ [' ', '├', '└', '─'] := by
  have space : ∀ {n}, c ∈ Text.spaces n → c ∈ [' ', '├', '└', '─'] := fun met =>
    List.eq_of_mem_replicate met ▸ List.mem_cons_self
  cases argument? with
  | none => exact space (margin_none ▸ met)
  | some isLast =>
    have connector : ∀ d ∈ [if isLast then '└' else '├', '─', ' '], d ∈ [' ', '├', '└', '─'] := by
      cases isLast <;> simp
    rcases List.mem_append.1 met with met | met
    · exact space met
    · replace met : c ∈ if style.useNestingIndicators then _ else _ := met
      split at met
      · exact (List.mem_append.1 met).elim space (connector c)
      · cases met

theorem plain_margin {argument? : Option Bool} :
    ∀ c ∈ style.margin depth argument?, c ≠ '\n' ∧ c ≠ '(' ∧ c ≠ ')' := by
  have plain : ∀ d ∈ [' ', '├', '└', '─'], d ≠ '\n' ∧ d ≠ '(' ∧ d ≠ ')' := by simp
  exact fun c met => plain c (mem_margin met)

/-! ## The text of tiles -/

@[simp] theorem print_nil : print style [] = [] := rfl

@[simp] theorem print_char {c : Char} : print style (char c :: ts) = c :: print style ts := rfl

@[simp] theorem print_lineBreak {argument? : Option Bool} :
    print style (lineBreak depth argument? :: ts) =
      '\n' :: (style.margin depth argument? ++ print style ts) := by
  rw [print, write_lineBreak, textOf_cons, textOf_append, textOf_chars]
  rfl

@[simp] theorem print_append : print style (ts ++ us) = print style ts ++ print style us := by
  rw [print, write_append, textOf_append]
  rfl

@[simp] theorem print_ofText (t : Text) : print style (ofText t) = t := by
  rw [print, write_ofText, textOf_pieces]

@[simp] theorem print_ofChars (t : Text) : print style (ofChars t) = t := by
  rw [print, write_ofChars, textOf_chars]

theorem print_eq_of_not_anyBreak (unbroken : anyBreak ts = false) :
    print style ts = print other ts :=
  congrArg textOf (write_eq_of_not_anyBreak unbroken)

theorem print_ofGroup (holdsCall : Bool) :
    print style (ofGroup style depth holdsCall ts) =
      groupText style depth holdsCall (print style ts) := by
  unfold ofGroup groupText
  split
  · simp
  · simp [margin_none]

theorem print_inline :
    print style (inline tss) = Text.joined [';', ' '] (tss.map (print style)) := by
  induction tss with
  | nil => rfl
  | cons ts tss ih =>
    cases tss with
    | nil => rfl
    | cons => simp [inline, Text.joined, ih]

/-- Every line of an argument begins with a break and ends without one. -/
theorem print_onLines (style : Style) (depth : Nat) (tss : List (List Tile)) :
    print style (onLines (depth + 1) tss) ++ ['\n'] =
      '\n' :: argumentLines style depth (tss.map (print style)) := by
  induction tss with
  | nil => rfl
  | cons ts tss ih =>
    rw [List.map_cons, argumentLines, List.isEmpty_map, onLines]
    cases tss with
    | nil => simp [onLines, argumentLines, margin_argument]
    | cons => simp [margin_argument, ih]

theorem print_ofArguments {name : Text} {arguments : List Expression}
    (sizes : arguments.isEmpty = tss.isEmpty) :
    name ++ print style (ofArguments style depth arguments tss) =
      callText style depth name arguments (tss.map (print style)) := by
  rw [ofArguments, callText, print_char]
  by_cases fits : fitsOneLine style arguments (tss.map (print style)) = true
  · rw [if_pos fits, if_pos fits, print_append, print_inline]
    split
    · next empty =>
      rw [sizes, List.isEmpty_iff] at empty
      rw [empty]
      rfl
    · rfl
  · have some : ¬arguments.isEmpty = true := by
      intro empty
      have nothing := sizes ▸ empty
      rw [List.isEmpty_iff] at empty nothing
      exact fits (by simp [empty, nothing, fitsOneLine])
    rw [if_neg fits, if_neg some, if_neg fits, callBroken, ← List.cons_append,
      ← print_onLines style depth tss]
    simp [margin_none]

end Tile

namespace Expression

variable {style : Style}

theorem print_tilesOfEach {depth : Nat} {es : List Expression}
    (each : ∀ e ∈ es, Tile.print style (tiles style depth e) = layout style depth e) :
    (tilesOfEach style depth es).map (Tile.print style) = layoutEach style depth es := by
  rw [tilesOfEach_eq_map, layoutEach_eq_map, List.map_map]
  exact List.map_congr_left each

mutual

/-- The layout of a part is the text of its tiles. -/
theorem InRow.print_tiles {e : Expression} (part : InRow Text.LineToken e) (depth : Nat) :
    Tile.print style (tiles style depth e) = layout style depth e := by
  match part with
  | .leaf .. =>
    rw [tiles, layout_plain, if_pos List.isEmpty_nil, if_pos List.isEmpty_nil, Tile.print_ofText]
  | .group row => rw [tiles, layout_group, Tile.print_ofGroup, row.print_tiles]
  | @InRow.call _ name source arguments known each =>
    have sizes : arguments.isEmpty = (tilesOfEach style (depth + 1) arguments).isEmpty := by
      rw [tilesOfEach_eq_map, List.isEmpty_map]
    rw [tiles, layout_call known, Tile.print_append, Tile.print_ofChars,
      Tile.print_ofArguments sizes,
      print_tilesOfEach fun a met => (each a met).print_tiles (depth + 1)]
  | .operator op => rw [tiles, layout_operator, Tile.print_ofChars]

theorem Row.print_tiles {es : List Expression} (row : Row Text.LineToken es) (depth : Nat) :
    Tile.print style (tilesOfRow style depth es) = layoutSequence style depth es := by
  match row with
  | .nil => rw [tilesOfRow, layoutSequence_nil, Tile.print_nil]
  | .cons part _ behind =>
    rw [tilesOfRow, layoutSequence_cons, Tile.print_append, Tile.print_append, Tile.print_ofChars,
      part.print_tiles, behind.print_tiles]

theorem IsArgument.print_tiles {e : Expression} (argument : IsArgument Text.LineToken e)
    (depth : Nat) : Tile.print style (tiles style depth e) = layout style depth e := by
  match argument with
  | .nothing =>
    rw [tiles, layout_plain, if_pos List.isEmpty_nil, if_pos List.isEmpty_nil, Tile.print_ofText]
  | .single part => exact part.print_tiles depth
  | .several two row =>
    rw [tiles, layout_plain, if_neg (not_isEmpty_of_two two), if_neg (not_isEmpty_of_two two)]
    exact row.print_tiles depth

end

end Expression

end SheetFormula
