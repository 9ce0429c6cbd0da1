import SheetFormula.Proofs.Format.Limits
import SheetFormula.Proofs.Format.Tiles

/-!
# How tiles are laid

The tiles of a formula without line breaks follow a small grammar: what stands between parentheses
is either on one line, or begins with a line one step further in and is followed by the line of the
`)`; of a broken call, each argument begins such a line. In a style with short calls only, what an
expression is laid of does not depend on the indentation step or on the connectors
(`Formula.exists_laid`): a part that is broken at all is too long for any call to keep on one line.

## Main definitions

* `Tile.Laid`, `Tile.LaidArguments` — the grammar
* `Tile.Settled` — what is known of the tiles of an expression
* `Style.Agrees` — the same style with another indentation step or without connectors
-/

namespace SheetFormula

open Piece (Proper Plain isSome_char?_of_mem proper_chars)

theorem Expression.openingsOfEach_eq_flatten (es : List Expression) :
    openingsOfEach es = (es.map openings).flatten := by
  have whole := openingsOfEach_map id es
  rwa [List.map_id, List.flatMap_def] at whole

namespace Tile

/-- The tiles begin with no blank. -/
def Starts (ts : List Tile) : Prop :=
  ∀ p, ts.head? = some (piece p) → ∃ c, p.text.head? = some c ∧ Text.isBlank c = false

/-! ## The grammar -/

mutual

/-- The tiles of parts at a depth, with what their parentheses open. -/
inductive Laid : Nat → List Opening → List Tile → Prop where
  | nil {depth : Nat} : Laid depth [] []
  | piece {depth : Nat} {p : Piece} {os : List Opening} {ts : List Tile} (plain : p.Plain)
      (behind : Laid depth os ts) : Laid depth os (piece p :: ts)
  /-- Parentheses on one line. -/
  | unbroken {depth : Nat} {o : Opening} {os os' : List Opening} {ts ts' : List Tile}
      (inside : Laid (depth + 1) os ts) (oneLine : anyBreak ts = false)
      (behind : Laid depth os' ts') :
      Laid depth (o :: (os ++ os')) (char '(' :: (ts ++ char ')' :: ts'))
  | group {depth : Nat} {os os' : List Opening} {ts ts' : List Tile}
      (inside : Laid (depth + 1) os ts) (starts : Starts ts) (behind : Laid depth os' ts') :
      Laid depth (.group :: (os ++ os'))
        (char '(' :: lineBreak (depth + 1) none ::
          (ts ++ lineBreak depth none :: char ')' :: ts'))
  | call {depth n : Nat} {name : Text} {os os' : List Opening} {ts ts' : List Tile}
      (inside : LaidArguments (depth + 1) n os ts) (behind : Laid depth os' ts') :
      Laid depth (.call name n :: (os ++ os'))
        (char '(' :: (ts ++ lineBreak depth none :: char ')' :: ts'))

/-- The tiles of the arguments of a broken call, with their number. -/
inductive LaidArguments : Nat → Nat → List Opening → List Tile → Prop where
  | last {depth : Nat} {os : List Opening} {ts : List Tile} (argument : Laid depth os ts)
      (starts : Starts ts) : LaidArguments depth 1 os (lineBreak depth (some true) :: ts)
  | next {depth n : Nat} {os os' : List Opening} {ts ts' : List Tile}
      (argument : Laid depth os ts) (starts : Starts ts)
      (others : LaidArguments depth n os' ts') :
      LaidArguments depth (n + 1) (os ++ os')
        (lineBreak depth (some false) :: (ts ++ char ';' :: ts'))

end

theorem Laid.append {depth : Nat} {os os' : List Opening} {ts ts' : List Tile}
    (front : Laid depth os ts) (behind : Laid depth os' ts') :
    Laid depth (os ++ os') (ts ++ ts') := by
  match front with
  | .nil => exact behind
  | .piece plain rest => exact .piece plain (rest.append behind)
  | .unbroken inside oneLine rest =>
    simpa using Laid.unbroken inside oneLine (rest.append behind)
  | .group inside starts rest => simpa using Laid.group inside starts (rest.append behind)
  | .call inside rest => simpa using Laid.call inside (rest.append behind)

theorem laid_map_piece {depth : Nat} {ps : List Piece} (plain : ∀ p ∈ ps, p.Plain) :
    Laid depth [] (ps.map piece) := by
  induction ps with
  | nil => exact .nil
  | cons p ps ih =>
    obtain ⟨first, others⟩ := List.forall_mem_cons.1 plain
    exact .piece first (ih others)

/-- A line break, or a piece that holds none. -/
def InLine : Tile → Prop
  | piece p => '\n' ∉ p.text
  | lineBreak _ _ => True

theorem inLine_char {c : Char} (noBreak : c ≠ '\n') : InLine (char c) :=
  fun met => noBreak (List.mem_singleton.1 met).symm

mutual

/-- Only breaks break lines. -/
theorem Laid.inLine {depth : Nat} {os : List Opening} {ts : List Tile} (laid : Laid depth os ts) :
    ∀ t ∈ ts, t.InLine := by
  have opening : InLine (char '(') := inLine_char (by decide)
  have closing : InLine (char ')') := inLine_char (by decide)
  match laid with
  | .nil => exact fun t met => absurd met List.not_mem_nil
  | .piece plain behind => exact List.forall_mem_cons.2 ⟨plain.noLineBreak, behind.inLine⟩
  | .unbroken inside _ behind =>
    have rest := List.forall_mem_cons.2 ⟨closing, behind.inLine⟩
    exact List.forall_mem_cons.2 ⟨opening, List.forall_mem_append.2 ⟨inside.inLine, rest⟩⟩
  | .group inside _ behind =>
    have rest := List.forall_mem_cons.2 ⟨closing, behind.inLine⟩
    exact List.forall_mem_cons.2 ⟨opening, List.forall_mem_cons.2 ⟨trivial,
      List.forall_mem_append.2 ⟨inside.inLine, List.forall_mem_cons.2 ⟨trivial, rest⟩⟩⟩⟩
  | .call inside behind =>
    have rest := List.forall_mem_cons.2 ⟨closing, behind.inLine⟩
    exact List.forall_mem_cons.2 ⟨opening,
      List.forall_mem_append.2 ⟨inside.inLine, List.forall_mem_cons.2 ⟨trivial, rest⟩⟩⟩

theorem LaidArguments.inLine {depth n : Nat} {os : List Opening} {ts : List Tile}
    (laid : LaidArguments depth n os ts) : ∀ t ∈ ts, t.InLine := by
  have semicolon : InLine (char ';') := inLine_char (by decide)
  match laid with
  | .last argument _ => exact List.forall_mem_cons.2 ⟨trivial, argument.inLine⟩
  | .next argument _ others =>
    exact List.forall_mem_cons.2 ⟨trivial, List.forall_mem_append.2
      ⟨argument.inLine, List.forall_mem_cons.2 ⟨semicolon, others.inLine⟩⟩⟩

end

/-- Only a break is written as a line break. -/
theorem head?_write {style : Style} {ts : List Tile} (inLine : ∀ t ∈ ts, t.InLine) :
    ((write style ts).head? == some (.char '\n')) = ts.head?.any isBreak := by
  cases ts with
  | nil => rfl
  | cons t ts =>
    cases t with
    | lineBreak => rfl
    | piece p =>
      have noBreak : p ≠ .char '\n' := by
        rintro rfl
        exact inLine _ List.mem_cons_self List.mem_cons_self
      simpa [isBreak] using noBreak

theorem head?_of_not_anyBreak {ts : List Tile} (unbroken : anyBreak ts = false) (c : Char)
    (us : List Tile) : (ts ++ char c :: us).head?.any isBreak = false := by
  cases ts with
  | nil => rfl
  | cons t ts => exact (Bool.or_eq_false_iff.1 unbroken).1

theorem LaidArguments.head? {depth n : Nat} {os : List Opening} {ts : List Tile}
    (laid : LaidArguments depth n os ts) (us : List Tile) :
    (ts ++ us).head?.any isBreak = true := by
  cases laid <;> rfl

theorem LaidArguments.pos {depth n : Nat} {os : List Opening} {ts : List Tile}
    (laid : LaidArguments depth n os ts) : 0 < n := by
  cases laid <;> exact Nat.succ_pos _

/-- A line break shows in the text. -/
theorem mem_print_of_anyBreak (style : Style) {ts : List Tile} (broken : anyBreak ts = true) :
    '\n' ∈ print style ts := by
  induction ts with
  | nil => cases broken
  | cons t ts ih =>
    cases t with
    | piece p => exact List.mem_append_right p.text (ih broken)
    | lineBreak depth argument? =>
      rw [print_lineBreak]
      exact List.mem_cons_self

theorem not_mem_print (style : Style) {ts : List Tile} (inLine : ∀ t ∈ ts, t.InLine)
    (unbroken : anyBreak ts = false) : '\n' ∉ print style ts := by
  induction ts with
  | nil => exact List.not_mem_nil
  | cons t ts ih =>
    obtain ⟨first, others⟩ := List.forall_mem_cons.1 inLine
    cases t with
    | piece p =>
      intro met
      exact (List.mem_append.1 met).elim first (ih others unbroken)
    | lineBreak depth argument? => cases unbroken

/-! ## Arguments -/

variable {style : Style} {depth : Nat} {os : List Opening} {ts : List Tile}
  {oss : List (List Opening)} {tss : List (List Tile)}

theorem laid_ofChars {t : Text} (plain : ∀ c ∈ t, Text.isParenthesis c = false ∧ c ≠ '\n') :
    Laid depth [] (ofChars t) := by
  rw [ofChars_eq_map_piece]
  refine laid_map_piece (List.forall_mem_map.2 fun c met => ?_)
  exact ⟨(plain c met).1, fun lineBreak => (plain c met).2 (List.mem_singleton.1 lineBreak).symm⟩

theorem laid_inline (each : List.Forall₂ (Laid depth) oss tss) :
    Laid depth oss.flatten (inline tss) := by
  have gap : Laid depth [] (ofChars [';', ' ']) := laid_ofChars (by simp [Text.isParenthesis])
  induction each with
  | nil => exact .nil
  | @cons os ts oss tss first rest ih =>
    cases rest with
    | nil => simpa [inline] using first
    | cons => exact first.append (gap.append ih)

theorem laidArguments_onLines (each : List.Forall₂ (Laid depth) oss tss)
    (starts : ∀ ts ∈ tss, Starts ts) (some : tss ≠ []) :
    LaidArguments depth tss.length oss.flatten (onLines depth tss) := by
  induction each with
  | nil => exact absurd rfl some
  | @cons os ts oss tss first rest ih =>
    obtain ⟨firstStarts, othersStart⟩ := List.forall_mem_cons.1 starts
    cases rest with
    | nil => simpa [onLines] using LaidArguments.last first firstStarts
    | cons => exact .next first firstStarts (ih othersStart (List.cons_ne_nil _ _))

/-! ## Proper pieces -/

theorem not_mem_margin (argument? : Option Bool) : '"' ∉ style.margin depth argument? :=
  fun met => absurd (mem_margin met) (by decide)

theorem proper_inline (each : ∀ ts ∈ tss, Proper (write style ts)) :
    Proper (write style (inline tss)) := by
  induction tss with
  | nil => exact ⟨fun _ met => absurd met List.not_mem_nil, .nil⟩
  | cons ts tss ih =>
    obtain ⟨first, others⟩ := List.forall_mem_cons.1 each
    cases tss with
    | nil => exact first
    | cons us tss =>
      have behind := ((ih others).cons_char (c := ' ') (by decide)).cons_char (c := ';') (by decide)
      rw [inline, write_append, write_char, write_char]
      exact first.append behind (.inr fun _ isFirst => by cases isFirst; rfl)
      exact List.cons_ne_nil us tss

theorem proper_onLines (each : ∀ ts ∈ tss, Proper (write style ts)) :
    Proper (write style (onLines depth tss)) := by
  induction tss with
  | nil => exact ⟨fun _ met => absurd met List.not_mem_nil, .nil⟩
  | cons ts tss ih =>
    obtain ⟨first, others⟩ := List.forall_mem_cons.1 each
    have lead : '"' ∉ '\n' :: style.margin depth (some tss.isEmpty) := by
      simp [not_mem_margin]
    have line : Proper (write style ts ++ write style
        ((if tss.isEmpty then [] else [char ';']) ++ onLines depth tss)) := by
      cases tss with
      | nil => simpa [onLines] using first
      | cons us tss =>
        exact first.append ((ih others).cons_char (by decide))
          (.inr fun _ isFirst => by cases isFirst; rfl)
    have whole := (proper_chars lead).append line
      (.inl fun _ isLast => isSome_char?_of_mem (List.mem_of_getLast? isLast))
    simpa [onLines] using whole

/-! ## Settled tiles -/

/-- What is known of the tiles of expressions at a depth, with what their parentheses open and
whether they hold a call: how they are laid, that their text is cut into the pieces that they are
written as, and that without a call they are broken only if they are wide. -/
structure Settled (style : Style) (depth : Nat) (os : List Opening) (holdsCall : Bool)
    (ts : List Tile) : Prop where
  laid : Laid depth os ts
  proper : Proper (write style ts)
  wide : holdsCall = false → anyBreak ts = true → groupWidthLimit + 4 ≤ (print style ts).length

theorem settled_map_piece {ps : List Piece} {holdsCall : Bool} (plain : ∀ p ∈ ps, p.Plain)
    (proper : Proper ps) : Settled style depth [] holdsCall (ps.map piece) :=
  ⟨laid_map_piece plain, by rwa [write_map_piece], fun _ broken => by simp at broken⟩

theorem settled_nil {holdsCall : Bool} : Settled style depth [] holdsCall [] :=
  ⟨.nil, ⟨fun _ met => absurd met List.not_mem_nil, .nil⟩, fun _ broken => by cases broken⟩

theorem settled_ofChars {t : Text} {holdsCall : Bool}
    (plain : ∀ c ∈ t, Text.isParenthesis c = false ∧ c ≠ '\n') (noQuote : '"' ∉ t) :
    Settled style depth [] holdsCall (ofChars t) :=
  ⟨laid_ofChars plain, by rw [write_ofChars]; exact proper_chars noQuote,
    fun _ broken => by simp at broken⟩

theorem settled_gap (e : Expression) (es : List Expression) :
    Settled style depth [] false (ofChars (gapBetween e es)) := by
  have gaps : gapBetween e es = [] ∨ gapBetween e es = [' '] := by
    unfold gapBetween
    split
    · exact .inl rfl
    · split
      · exact .inr rfl
      · exact .inl rfl
  rcases gaps with none | space
  · rw [none]
    exact settled_nil
  · rw [space]
    exact settled_ofChars (by simp [Text.isParenthesis]) (by decide)

theorem Settled.append {os' : List Opening} {ts' : List Tile} {holdsCall holdsOther : Bool}
    (front : Settled style depth os holdsCall ts) (behind : Settled style depth os' holdsOther ts')
    (between : (∀ p ∈ (write style ts).getLast?, p.char?.isSome = true) ∨
      ∀ q ∈ (write style ts').head?, q.char?.isSome = true) :
    Settled style depth (os ++ os') (holdsCall || holdsOther) (ts ++ ts') := by
  refine ⟨front.laid.append behind.laid, ?_, fun noCall broken => ?_⟩
  · rw [write_append]
    exact front.proper.append behind.proper between
  · rw [Bool.or_eq_false_iff] at noCall
    rw [anyBreak_append, Bool.or_eq_true] at broken
    rw [print_append, List.length_append]
    rcases broken with broken | broken
    · have := front.wide noCall.1 broken
      omega
    · have := behind.wide noCall.2 broken
      omega

theorem Settled.group {holdsCall : Bool} (content : Settled style (depth + 1) os holdsCall ts)
    (starts : Starts ts) :
    Settled style depth (.group :: os) holdsCall (ofGroup style depth holdsCall ts) := by
  unfold ofGroup
  by_cases fits : groupFits holdsCall (print style ts) = true
  · have unbroken : anyBreak ts = false := by
      by_contra broken
      have met := mem_print_of_anyBreak style (by simpa using broken)
      simp [groupFits, met] at fits
    rw [if_pos fits]
    refine ⟨?_, ?_, fun _ broken => ?_⟩
    · simpa using Laid.unbroken (o := .group) content.laid unbroken .nil
    · have frame : Proper (['('].map .char ++ (write style ts ++ [')'].map .char)) :=
        content.proper.frame (by decide) (by decide)
      simpa using frame
    · rw [anyBreak_char, anyBreak_append, unbroken] at broken
      cases broken
  · rw [if_neg fits]
    refine ⟨?_, ?_, fun noCall _ => ?_⟩
    · simpa using Laid.group content.laid starts .nil
    · have lead : '"' ∉ '(' :: '\n' :: style.margin (depth + 1) none := by simp [not_mem_margin]
      have trail : '"' ∉ '\n' :: (style.margin depth none ++ [')']) := by simp [not_mem_margin]
      simpa using content.proper.frame lead trail
    · have inside : groupWidthLimit ≤ (print style ts).length := by
        cases broken : anyBreak ts with
        | true =>
          have := content.wide noCall broken
          omega
        | false =>
          have noBreak := not_mem_print style content.laid.inLine broken
          simpa [groupFits, noCall, noBreak] using fits
      simp
      omega

theorem length_print_le_of_mem (style : Style) (met : ts ∈ tss) :
    (print style ts).length ≤ (tss.map (print style)).flatten.length :=
  (List.sublist_flatten_of_mem (List.mem_map_of_mem met)).length_le

/-- In a style with short calls only, no call keeps a broken argument on one line. -/
theorem unbroken_of_fitsOneLine {arguments : List Expression}
    (short : style.maxInlineLength < groupWidthLimit + 4)
    (each : ∀ a ∈ arguments, Settled style (depth + 1) a.openings a.containsCall
      (a.tiles style (depth + 1)))
    (fits : fitsOneLine style arguments
      ((Expression.tilesOfEach style (depth + 1) arguments).map (print style)) = true) :
    ∀ ts ∈ Expression.tilesOfEach style (depth + 1) arguments, anyBreak ts = false := by
  have free := callFree_of_fitsOneLine fits
  intro ts met
  by_contra broken
  have shortest := length_print_le_of_mem style met
  rw [Expression.tilesOfEach_eq_map, List.mem_map] at met
  obtain ⟨a, isArgument, rfl⟩ := met
  have noCall : a.containsCall = false := by
    rw [Expression.anyContainsCall_eq_any, List.any_eq_false] at free
    simpa using free a isArgument
  have := (each a isArgument).wide noCall (by simpa using broken)
  have within : ((Expression.tilesOfEach style (depth + 1) arguments).map
      (print style)).flatten.length ≤ style.maxInlineLength := by
    simp only [fitsOneLine, Bool.and_eq_true, decide_eq_true_eq] at fits
    exact fits.2
  omega

theorem plain_name {name : Text} (isKnown : name ∈ FunctionName.known) :
    (∀ c ∈ name, Text.isParenthesis c = false ∧ c ≠ '\n') ∧ '"' ∉ name := by
  have names : ∀ c ∈ name, Text.isNameChar c = true ∧ c ≠ '"' := fun c met =>
    have spelled := FunctionName.spelling ((FunctionName.spells_of_mem_known isKnown).2 c met)
    ⟨spelled.2.1, spelled.2.2.2.1⟩
  have others : ∀ d ∈ ['(', ')', '\n'], Text.isNameChar d = false := by
    have all := List.all_eq_true.1 (by decide +kernel : ['(', ')', '\n'].all (!Text.isNameChar ·))
    simpa using all
  refine ⟨fun c met => ?_, fun met => (names _ met).2 rfl⟩
  have apart : c ∉ ['(', ')', '\n'] := fun other => by
    have isName := (names c met).1
    rw [others c other] at isName
    cases isName
  simp only [List.mem_cons, List.not_mem_nil, or_false, not_or] at apart
  simp [Text.isParenthesis, apart]

/-- An argument list is settled, if unbroken arguments only fit on one line. -/
theorem settled_ofArguments {name : Text} {arguments : List Expression}
    (laid : List.Forall₂ (Laid (depth + 1)) oss tss) (proper : ∀ ts ∈ tss, Proper (write style ts))
    (starts : ∀ ts ∈ tss, Starts ts) (sizes : tss.length = arguments.length)
    (unbroken : fitsOneLine style arguments (tss.map (print style)) = true →
      ∀ ts ∈ tss, anyBreak ts = false) :
    Settled style depth (.call name arguments.length :: oss.flatten) true
      (ofArguments style depth arguments tss) := by
  unfold ofArguments
  by_cases fits : fitsOneLine style arguments (tss.map (print style)) = true
  · have oneLine := anyBreak_inline (unbroken fits)
    rw [if_pos fits]
    refine ⟨?_, ?_, Bool.noConfusion⟩
    · simpa using Laid.unbroken (o := .call name arguments.length) (laid_inline laid) oneLine .nil
    · have frame : Proper (['('].map .char ++ (write style (inline tss) ++ [')'].map .char)) :=
        (proper_inline proper).frame (by decide) (by decide)
      simpa using frame
  · have some : tss ≠ [] := by
      rintro rfl
      have none : arguments = [] := List.length_eq_zero_iff.1 sizes.symm
      exact fits (by simp [none, fitsOneLine])
    have lines := laidArguments_onLines laid starts some
    rw [sizes] at lines
    have whole : Laid depth (.call name arguments.length :: (oss.flatten ++ [])) _ :=
      .call lines .nil
    rw [if_neg fits]
    refine ⟨by simpa using whole, ?_, Bool.noConfusion⟩
    have trail : '"' ∉ '\n' :: (style.margin depth none ++ [')']) := by simp [not_mem_margin]
    have frame : Proper (['('].map .char ++ (write style (onLines (depth + 1) tss) ++
        ('\n' :: (style.margin depth none ++ [')'])).map .char)) :=
      (proper_onLines proper).frame (by decide) trail
    simpa using frame

/-- A call in such a style is settled if its arguments are. -/
theorem settled_call {name : Text} {arguments : List Expression}
    (short : style.maxInlineLength < groupWidthLimit + 4) (isKnown : name ∈ FunctionName.known)
    (each : ∀ a ∈ arguments, Settled style (depth + 1) a.openings a.containsCall
      (a.tiles style (depth + 1)))
    (starts : ∀ a ∈ arguments, Starts (a.tiles style (depth + 1))) :
    Settled style depth (.call name arguments.length :: Expression.openingsOfEach arguments) true
      (ofChars name ++ ofArguments style depth arguments
        (Expression.tilesOfEach style (depth + 1) arguments)) := by
  have unbroken := unbroken_of_fitsOneLine short each
  rw [Expression.openingsOfEach_eq_flatten]
  rw [Expression.tilesOfEach_eq_map] at unbroken ⊢
  have laid : List.Forall₂ (Laid (depth + 1)) (arguments.map Expression.openings)
      (arguments.map (Expression.tiles style (depth + 1))) := by
    rw [List.forall₂_map_left_iff, List.forall₂_map_right_iff, List.forall₂_same]
    exact fun a met => (each a met).laid
  obtain ⟨plain, noQuote⟩ := plain_name isKnown
  have front : Settled style depth [] true (ofChars name) := settled_ofChars plain noQuote
  have behind : Settled style depth (.call name arguments.length :: _) true (ofArguments _ _ _ _) :=
    settled_ofArguments laid (List.forall_mem_map.2 fun a met => (each a met).proper)
      (List.forall_mem_map.2 starts) (List.length_map _) unbroken
  refine front.append behind (.inl fun p isLast => ?_)
  rw [write_ofChars] at isLast
  exact isSome_char?_of_mem (List.mem_of_getLast? isLast)

theorem starts_of_head?_print (proper : Proper (write style ts))
    (first : ∀ c, (print style ts).head? = some c → Text.isBlank c = false) : Starts ts := by
  intro p isFirst
  obtain ⟨others, rfl⟩ := List.head?_eq_some_iff.1 isFirst
  cases p with
  | char c => exact ⟨c, rfl, first c rfl⟩
  | literal text closed =>
    exact ⟨'"', ((proper.whole _ List.mem_cons_self).quotes rfl).1, by decide⟩

end Tile

/-! ## Expressions -/

namespace Expression

open Tile (Settled Starts)

variable {style : Style}

theorem Row.starts_tiles {es : List Expression} {depth : Nat} (row : Row Text.LineToken es)
    (proper : Proper (Tile.write style (tilesOfRow style depth es))) :
    Starts (tilesOfRow style depth es) := by
  refine Tile.starts_of_head?_print proper fun c first => ?_
  rw [row.print_tiles] at first
  exact (row.head?_layout (fun t token => token.trimmed) first).2

theorem IsArgument.starts_tiles {e : Expression} {depth : Nat}
    (argument : IsArgument Text.LineToken e)
    (proper : Proper (Tile.write style (tiles style depth e))) :
    Starts (tiles style depth e) := by
  refine Tile.starts_of_head?_print proper fun c first => ?_
  rw [argument.print_tiles] at first
  exact (argument.head?_layout (fun t token => token.trimmed) first).2

/-- What is no leaf neither begins nor ends with a literal. -/
theorem InRow.ends_tiles {e : Expression} (part : InRow Text.LineToken e) (style : Style)
    (depth : Nat) (noLeaf : e.isLeaf = false) :
    (∃ c, (Tile.write style (tiles style depth e)).head? = some (.char c)) ∧
      ∃ c, (Tile.write style (tiles style depth e)).getLast? = some (.char c) := by
  cases part with
  | leaf => cases noLeaf
  | group =>
    rw [tiles, Tile.ofGroup]
    split <;> exact ⟨⟨'(', by simp⟩, ⟨')', by simp [List.getLast?_cons]⟩⟩
  | @call name source arguments known =>
    obtain ⟨c, rest, rfl⟩ :=
      List.exists_cons_of_ne_nil (FunctionName.spells_of_mem_known known).1
    rw [tiles, Tile.ofArguments]
    split <;> exact ⟨⟨c, by simp⟩, ⟨')', by simp [List.getLast?_cons]⟩⟩
  | operator op =>
    rw [tiles, Tile.write_ofChars]
    cases op <;> exact ⟨⟨_, rfl⟩, ⟨_, rfl⟩⟩

/-- A row that begins with no leaf begins with no literal. -/
theorem Row.head?_tiles {es : List Expression} {depth : Nat} (row : Row Text.LineToken es)
    (noLeaf : ∀ f ∈ es.head?, f.isLeaf = false) :
    ∀ p ∈ (Tile.write style (tilesOfRow style depth es)).head?, p.char?.isSome = true := by
  intro p isFirst
  cases row with
  | nil =>
    rw [tilesOfRow] at isFirst
    cases isFirst
  | cons part _ _ =>
    obtain ⟨⟨c, begins⟩, -⟩ := part.ends_tiles style depth (noLeaf _ rfl)
    rw [tilesOfRow, Tile.write_append, List.head?_append, begins] at isFirst
    cases isFirst
    rfl

mutual

/-- In a style with short calls only, the tiles of a part are settled. -/
theorem InRow.settled_tiles {e : Expression} (short : style.maxInlineLength < groupWidthLimit + 4)
    (part : InRow Text.LineToken e) (depth : Nat) :
    Settled style depth e.openings e.containsCall (tiles style depth e) := by
  match part with
  | .leaf token _ =>
    rw [openings_plain, openingsOfEach_nil, tiles, if_pos List.isEmpty_nil]
    exact Tile.settled_map_piece (token.plain_leaf style) (token.proper_leaf style)
  | .group row =>
    rw [openings_group, containsCall, tiles]
    have content := row.settled_tiles short (depth + 1)
    exact content.group (row.starts_tiles content.proper)
  | .call known each =>
    rw [openings_call, containsCall, tiles]
    have arguments := fun a met => (each a met).settled_tiles short (depth + 1)
    exact Tile.settled_call short known arguments
      fun a met => (each a met).starts_tiles (arguments a met).proper
  | .operator op =>
    have plain : (∀ c ∈ op.lexeme, Text.isParenthesis c = false ∧ c ≠ '\n') ∧ '"' ∉ op.lexeme := by
      cases op <;> simp [Operator.lexeme, Text.isParenthesis]
    have nothing : (operator op).openings = [] := by rw [openings, nodes]; rfl
    rw [nothing, tiles]
    exact Tile.settled_ofChars plain.1 plain.2

theorem Row.settled_tiles {es : List Expression}
    (short : style.maxInlineLength < groupWidthLimit + 4) (row : Row Text.LineToken es)
    (depth : Nat) :
    Settled style depth (openingsOfEach es) (anyContainsCall es) (tilesOfRow style depth es) := by
  match row with
  | .nil =>
    rw [openingsOfEach_nil, tilesOfRow]
    exact Tile.settled_nil
  | @Row.cons _ e es part apart behind =>
    have first := part.settled_tiles short depth
    have others := behind.settled_tiles short depth
    rw [openingsOfEach_cons, anyContainsCall, tilesOfRow]
    refine first.append ((Tile.settled_gap e es).append others (.inl ?_)) ?_
    · intro p isLast
      rw [Tile.write_ofChars] at isLast
      exact isSome_char?_of_mem (List.mem_of_getLast? isLast)
    · cases leaf : e.isLeaf with
      | false =>
        obtain ⟨-, c, ends⟩ := part.ends_tiles style depth leaf
        exact .inl fun p isLast => by rw [ends] at isLast; cases isLast; rfl
      | true =>
        -- no leaf follows another one
        have noLeaf : ∀ f ∈ es.head?, f.isLeaf = false := fun f isNext => by
          simpa [leaf] using apart f isNext
        refine .inr fun p isFirst => ?_
        rw [Tile.write_append, Tile.write_ofChars, List.head?_append, Option.mem_def,
          Option.or_eq_some_iff] at isFirst
        rcases isFirst with isFirst | ⟨-, isFirst⟩
        · exact isSome_char?_of_mem (List.mem_of_head? isFirst)
        · exact behind.head?_tiles noLeaf p isFirst

theorem IsArgument.settled_tiles {e : Expression}
    (short : style.maxInlineLength < groupWidthLimit + 4) (argument : IsArgument Text.LineToken e)
    (depth : Nat) : Settled style depth e.openings e.containsCall (tiles style depth e) := by
  match argument with
  | .nothing =>
    rw [openings_plain, openingsOfEach_nil, tiles, if_pos List.isEmpty_nil, Style.leaf_nil,
      Tile.ofText, pieces]
    exact Tile.settled_nil
  | .single part => exact part.settled_tiles short depth
  | .several two row =>
    rw [openings_plain, containsCall, tiles, if_neg (not_isEmpty_of_two two)]
    exact row.settled_tiles short depth

end

end Expression

/-! ## Other styles -/

/-- The same style, perhaps with another indentation step, and with or without connectors. -/
structure Style.Agrees (other style : Style) : Prop where
  spacing : other.useOperatorSpacing = style.useOperatorSpacing
  length : other.maxInlineLength = style.maxInlineLength
  params : other.maxInlineParams = style.maxInlineParams

variable {style other : Style} {depth : Nat}

theorem Style.Agrees.symm (agrees : other.Agrees style) : style.Agrees other :=
  ⟨agrees.spacing.symm, agrees.length.symm, agrees.params.symm⟩

theorem Style.Agrees.leaf (agrees : other.Agrees style) (t : Text) :
    other.leaf t = style.leaf t := by
  rw [Style.leaf, Style.leaf, agrees.spacing]

namespace Tile

/-- What is broken does not fit into a group, and the rest has the same text in all styles. -/
theorem ofGroup_eq (holdsCall : Bool) (ts : List Tile) :
    ofGroup other depth holdsCall ts = ofGroup style depth holdsCall ts := by
  have same : groupFits holdsCall (print other ts) = groupFits holdsCall (print style ts) := by
    cases broken : anyBreak ts with
    | false => rw [print_eq_of_not_anyBreak broken]
    | true =>
      have here := mem_print_of_anyBreak style broken
      have there := mem_print_of_anyBreak other broken
      simp [groupFits, here, there]
  rw [ofGroup, ofGroup, same]

/-- If only unbroken arguments fit on one line, they fit in both styles or in none. -/
theorem fitsOneLine_of_agrees {arguments : List Expression} {tss : List (List Tile)}
    (agrees : other.Agrees style) (unbroken : ∀ ts ∈ tss, anyBreak ts = false)
    (fits : fitsOneLine style arguments (tss.map (print style)) = true) :
    fitsOneLine other arguments (tss.map (print other)) = true := by
  have same : tss.map (print other) = tss.map (print style) :=
    List.map_congr_left fun ts met => print_eq_of_not_anyBreak (unbroken ts met)
  rw [same]
  rwa [fitsOneLine, agrees.length, agrees.params]

end Tile

namespace Expression

mutual

/-- Styles that agree lay the same tiles. -/
theorem InRow.tiles_eq {e : Expression} (agrees : other.Agrees style)
    (short : style.maxInlineLength < groupWidthLimit + 4) (part : InRow Text.LineToken e)
    (depth : Nat) : tiles other depth e = tiles style depth e := by
  match part with
  | .leaf .. =>
    rw [tiles, tiles, if_pos List.isEmpty_nil, if_pos List.isEmpty_nil, agrees.leaf]
  | .group row =>
    rw [tiles, tiles, row.tiles_eq agrees short (depth + 1), Tile.ofGroup_eq]
  | @InRow.call _ name source arguments known each =>
    have same : tilesOfEach other (depth + 1) arguments =
        tilesOfEach style (depth + 1) arguments := by
      rw [tilesOfEach_eq_map, tilesOfEach_eq_map]
      exact List.map_congr_left fun a met => (each a met).tiles_eq agrees short (depth + 1)
    have shortOther : other.maxInlineLength < groupWidthLimit + 4 := agrees.length ▸ short
    have settled := fun a met => (each a met).settled_tiles short (depth + 1)
    have settledOther := fun a met => (each a met).settled_tiles shortOther (depth + 1)
    have decision :
        fitsOneLine other arguments
            ((tilesOfEach style (depth + 1) arguments).map (Tile.print other)) =
          fitsOneLine style arguments
            ((tilesOfEach style (depth + 1) arguments).map (Tile.print style)) := by
      refine Bool.eq_iff_iff.2 ⟨fun fits => ?_, fun fits => ?_⟩
      · rw [← same] at fits ⊢
        exact Tile.fitsOneLine_of_agrees agrees.symm
          (Tile.unbroken_of_fitsOneLine shortOther settledOther fits) fits
      · exact Tile.fitsOneLine_of_agrees agrees
          (Tile.unbroken_of_fitsOneLine short settled fits) fits
    rw [tiles, tiles, same, Tile.ofArguments, Tile.ofArguments, decision]
  | .operator op => rw [tiles, tiles]

theorem Row.tiles_eq {es : List Expression} (agrees : other.Agrees style)
    (short : style.maxInlineLength < groupWidthLimit + 4) (row : Row Text.LineToken es)
    (depth : Nat) : tilesOfRow other depth es = tilesOfRow style depth es := by
  match row with
  | .nil => rw [tilesOfRow, tilesOfRow]
  | .cons part _ behind =>
    rw [tilesOfRow, tilesOfRow, part.tiles_eq agrees short depth,
      behind.tiles_eq agrees short depth]

theorem IsArgument.tiles_eq {e : Expression} (agrees : other.Agrees style)
    (short : style.maxInlineLength < groupWidthLimit + 4) (argument : IsArgument Text.LineToken e)
    (depth : Nat) : tiles other depth e = tiles style depth e := by
  match argument with
  | .nothing => rw [tiles, tiles, if_pos List.isEmpty_nil, if_pos List.isEmpty_nil, agrees.leaf]
  | .single part => exact part.tiles_eq agrees short depth
  | .several two row =>
    rw [tiles, tiles, if_neg (not_isEmpty_of_two two), if_neg (not_isEmpty_of_two two)]
    exact row.tiles_eq agrees short depth

end

end Expression

/-! ## Formulas -/

/-- In a style with short calls only, an accepted formula without line breaks is laid of the same
tiles whatever the indentation step and the connectors. -/
theorem Formula.exists_laid {t : Text} {tree : Expression}
    (short : style.maxInlineLength < groupWidthLimit + 4)
    (accepted : (ofText t).tree? = .ok tree) (noLineBreak : '\n' ∉ (ofText t).body) :
    ∃ ts, Tile.Laid 0 tree.openings ts ∧ Tile.Starts ts ∧
      ∀ other : Style, other.Agrees style → other.indentSize ≤ widestIndent →
        pieces (beautify other t) = Tile.write other ts := by
  obtain ⟨rfl, -⟩ := (ofText t).paired_of_tree? accepted
  obtain ⟨parts, whole, row, visible⟩ := row_unbroken accepted noLineBreak
  have written : ∀ other : Style, other.Agrees style →
      pieces (layout other 0 (ofText t).tree) =
        Tile.write other (Expression.tilesOfRow style 0 parts) := by
    intro other agrees
    have shortOther : other.maxInlineLength < groupWidthLimit + 4 := agrees.length ▸ short
    have laidOut : layout other 0 (ofText t).tree = layoutSequence other 0 parts := by
      rw [whole, layout_plain]
      split
      · next none =>
        rw [List.isEmpty_iff] at none
        rw [visible none, Style.leaf_nil, none, layoutSequence_nil]
      · rfl
    rw [laidOut, ← row.print_tiles, ← row.tiles_eq agrees short 0]
    exact (row.settled_tiles shortOther 0).proper.pieces_textOf
  have settled := row.settled_tiles short 0
  have laid := settled.laid
  rw [← Expression.openings_plain (ofText t).body, ← whole] at laid
  refine ⟨(if (ofText t).hasEquals then [Tile.char '='] else []) ++
    Expression.tilesOfRow style 0 parts, ?_, ?_, fun other agrees narrow => ?_⟩
  · split
    · exact .piece ⟨rfl, by decide⟩ laid
    · exact laid
  · split
    · rintro p ⟨⟩
      exact ⟨'=', rfl, by decide⟩
    · exact row.starts_tiles settled.proper
  · rw [beautify_eq narrow, withEquals]
    split
    · rw [pieces, if_neg (by decide), written other agrees]
      rfl
    · exact written other agrees

end SheetFormula
