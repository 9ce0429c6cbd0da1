import SheetFormula.Proofs.Format.Laid
import SheetFormula.Proofs.Marks.Completed

/-!
# Parentheses on one line

In a style with short calls only, no line breaks inside of parentheses that are not followed by a
line break (`oneLine_beautify`): whatever encloses a line break begins with one itself. Longer calls
may keep a group on their line that is broken for its own width
(`beautify_long_call_breaks`).

## Main definitions

* `Piece.BrokenAround` — every line break is enclosed by broken parentheses only
-/

namespace SheetFormula

namespace Piece

/-- Every line break among pieces is enclosed by broken parentheses only; `enclosing` tells which of
those that are open in front of the pieces are broken. -/
def BrokenAround (enclosing : List Bool) : List Piece → Prop
  | [] => True
  | p :: ps =>
    if p = char '\n' then (∀ isBroken ∈ enclosing, isBroken = true) ∧ BrokenAround enclosing ps
    else if p = char '(' then
      BrokenAround ((ps.head? == some (char '\n')) :: enclosing) ps
    else if p = char ')' then BrokenAround enclosing.tail ps
    else BrokenAround enclosing ps

variable {enclosing outer : List Bool} {p : Piece} {ps qs : List Piece}

theorem brokenAround_other (noBreak : p ≠ char '\n') (noOpening : p ≠ char '(')
    (noClosing : p ≠ char ')') :
    BrokenAround enclosing (p :: ps) ↔ BrokenAround enclosing ps := by
  rw [BrokenAround, if_neg noBreak, if_neg noOpening, if_neg noClosing]

theorem brokenAround_break :
    BrokenAround enclosing (char '\n' :: ps) ↔
      (∀ isBroken ∈ enclosing, isBroken = true) ∧ BrokenAround enclosing ps := by
  rw [BrokenAround, if_pos rfl]

theorem brokenAround_opening :
    BrokenAround enclosing (char '(' :: ps) ↔
      BrokenAround ((ps.head? == some (char '\n')) :: enclosing) ps := by
  rw [BrokenAround, if_neg (by decide), if_pos rfl]

theorem brokenAround_closing :
    BrokenAround enclosing (char ')' :: ps) ↔ BrokenAround enclosing.tail ps := by
  rw [BrokenAround, if_neg (by decide), if_neg (by decide), if_pos rfl]

theorem brokenAround_chars {t : Text} (plain : ∀ c ∈ t, c ≠ '\n' ∧ c ≠ '(' ∧ c ≠ ')') :
    BrokenAround enclosing (t.map char ++ ps) ↔ BrokenAround enclosing ps := by
  induction t with
  | nil => rfl
  | cons c t ih =>
    obtain ⟨⟨noBreak, noOpening, noClosing⟩, others⟩ := List.forall_mem_cons.1 plain
    rw [List.map_cons, List.cons_append, brokenAround_other (by simpa) (by simpa) (by simpa),
      ih others]

/-- What is known of pieces is known of the last ones. -/
theorem BrokenAround.behind (around : BrokenAround enclosing (ps ++ qs)) :
    ∃ opened, BrokenAround opened qs := by
  induction ps generalizing enclosing with
  | nil => exact ⟨enclosing, around⟩
  | cons p ps ih =>
    rw [List.cons_append, BrokenAround] at around
    split at around
    · exact ih around.2
    · split at around
      · exact ih around
      · split at around
        · exact ih around
        · exact ih around

/-- No line breaks inside of a parenthesis that is not broken, up to its `)`. -/
theorem BrokenAround.noLineBreak {inner : List Bool} {left : Nat}
    (around : BrokenAround (inner ++ false :: outer) (ps ++ qs))
    (inside : leftOpen? inner.length ps = some left) : char '\n' ∉ ps := by
  induction ps generalizing inner with
  | nil => exact List.not_mem_nil
  | cons p ps ih =>
    rw [List.mem_cons, not_or]
    rw [List.cons_append] at around
    rw [leftOpen?] at inside
    by_cases isBreak : p = char '\n'
    · rw [isBreak, brokenAround_break] at around
      exact absurd (around.1 false (by simp)) Bool.false_ne_true
    by_cases isOpening : p = char '('
    · rw [isOpening, brokenAround_opening] at around
      rw [if_pos isOpening] at inside
      rw [← List.cons_append] at around
      exact ⟨Ne.symm isBreak, ih around inside⟩
    rw [if_neg isOpening] at inside
    by_cases isClosing : p = char ')'
    · rw [isClosing, brokenAround_closing] at around
      rw [if_pos isClosing] at inside
      cases inner with
      | nil => cases inside
      | cons first inner => exact ⟨Ne.symm isBreak, ih around inside⟩
    · rw [brokenAround_other isBreak isOpening isClosing] at around
      rw [if_neg isClosing] at inside
      exact ⟨Ne.symm isBreak, ih around inside⟩

end Piece

namespace Tile

open Piece (BrokenAround)

/-- Written tiles of which every line break is enclosed by broken parentheses only. -/
structure Surrounded (style : Style) (enclosing : List Bool) (ts : List Tile) : Prop where
  around : BrokenAround enclosing (write style ts)
  inLine : ∀ t ∈ ts, t.InLine

variable {style : Style} {depth : Nat} {argument? : Option Bool} {enclosing : List Bool}
  {p : Piece} {ts : List Tile}

theorem Surrounded.piece (plain : p.Plain) (behind : Surrounded style enclosing ts) :
    Surrounded style enclosing (piece p :: ts) := by
  obtain ⟨noBreak, noOpening, noClosing⟩ := plain.ne
  refine ⟨?_, List.forall_mem_cons.2 ⟨plain.noLineBreak, behind.inLine⟩⟩
  rw [write_piece, Piece.brokenAround_other noBreak noOpening noClosing]
  exact behind.around

theorem Surrounded.opening (behind : Surrounded style (ts.head?.any isBreak :: enclosing) ts) :
    Surrounded style enclosing (char '(' :: ts) := by
  refine ⟨?_, List.forall_mem_cons.2 ⟨inLine_char (by decide), behind.inLine⟩⟩
  rw [write_char, Piece.brokenAround_opening, head?_write behind.inLine]
  exact behind.around

theorem Surrounded.closing {first : Bool} (behind : Surrounded style enclosing ts) :
    Surrounded style (first :: enclosing) (char ')' :: ts) := by
  refine ⟨?_, List.forall_mem_cons.2 ⟨inLine_char (by decide), behind.inLine⟩⟩
  rw [write_char, Piece.brokenAround_closing]
  exact behind.around

theorem Surrounded.lineBreak (broken : ∀ isBroken ∈ enclosing, isBroken = true)
    (behind : Surrounded style enclosing ts) :
    Surrounded style enclosing (lineBreak depth argument? :: ts) := by
  refine ⟨?_, List.forall_mem_cons.2 ⟨trivial, behind.inLine⟩⟩
  rw [write_lineBreak, Piece.brokenAround_break, Piece.brokenAround_chars plain_margin]
  exact ⟨broken, behind.around⟩

mutual

/-- Laid tiles break lines inside of broken parentheses only, if those around them are broken. -/
theorem Laid.surrounded {style : Style} {depth : Nat} {os : List Opening} {ts us : List Tile}
    (laid : Laid depth os ts) (enclosing : List Bool)
    (broken : anyBreak ts = true → ∀ isBroken ∈ enclosing, isBroken = true)
    (behind : Surrounded style enclosing us) : Surrounded style enclosing (ts ++ us) := by
  match laid with
  | .nil => exact behind
  | .piece plain rest => exact .piece plain (rest.surrounded enclosing broken behind)
  | @Laid.unbroken _ o os₁ os₂ ts₁ ts₂ inside oneLine rest =>
    have behindRest := rest.surrounded enclosing (fun breaks => broken (by simp [breaks])) behind
    rw [List.cons_append, List.append_assoc, List.cons_append]
    exact .opening (inside.surrounded _ (fun breaks => by simp [oneLine] at breaks)
      behindRest.closing)
  | @Laid.group _ os₁ os₂ ts₁ ts₂ inside starts rest =>
    replace broken := broken rfl
    have behindRest := rest.surrounded enclosing (fun _ => broken) behind
    have all : ∀ isBroken ∈ true :: enclosing, isBroken = true :=
      List.forall_mem_cons.2 ⟨rfl, broken⟩
    rw [List.cons_append, List.cons_append, List.append_assoc, List.cons_append, List.cons_append]
    exact .opening (.lineBreak all
      (inside.surrounded _ (fun _ => all) (.lineBreak all behindRest.closing)))
  | @Laid.call _ n name os₁ os₂ ts₁ ts₂ inside rest =>
    replace broken := broken (by simp)
    have behindRest := rest.surrounded enclosing (fun _ => broken) behind
    have all : ∀ isBroken ∈ true :: enclosing, isBroken = true :=
      List.forall_mem_cons.2 ⟨rfl, broken⟩
    have closingLine : Surrounded style (true :: enclosing)
        (.lineBreak depth none :: char ')' :: (ts₂ ++ us)) := .lineBreak all behindRest.closing
    have lines := inside.surrounded _ all closingLine
    rw [List.cons_append, List.append_assoc, List.cons_append, List.cons_append]
    exact .opening ((inside.head? _).symm ▸ lines)

theorem LaidArguments.surrounded {style : Style} {depth n : Nat} {os : List Opening}
    {ts us : List Tile} (laid : LaidArguments depth n os ts) (enclosing : List Bool)
    (broken : ∀ isBroken ∈ enclosing, isBroken = true)
    (behind : Surrounded style enclosing us) : Surrounded style enclosing (ts ++ us) := by
  match laid with
  | .last argument _ =>
    exact .lineBreak broken (argument.surrounded enclosing (fun _ => broken) behind)
  | .next argument _ others =>
    have behindOthers := others.surrounded enclosing broken behind
    rw [List.cons_append, List.append_assoc, List.cons_append]
    exact .lineBreak broken (argument.surrounded enclosing (fun _ => broken)
      (.piece ⟨rfl, by decide⟩ behindOthers))

end

/-- A piece that tiles are written as holds no line break, unless it is one. -/
theorem eq_of_mem_write (inLine : ∀ t ∈ ts, t.InLine) (met : p ∈ write style ts)
    (holds : '\n' ∈ p.text) : p = .char '\n' := by
  induction ts with
  | nil => cases met
  | cons t ts ih =>
    obtain ⟨first, others⟩ := List.forall_mem_cons.1 inLine
    cases t with
    | piece q =>
      rcases List.mem_cons.1 met with rfl | met
      · exact absurd holds first
      · exact ih others met
    | lineBreak depth argument? =>
      rw [write_lineBreak, List.mem_cons, List.mem_append] at met
      rcases met with rfl | met | met
      · rfl
      · obtain ⟨c, isMargin, rfl⟩ := List.mem_map.1 met
        rw [List.mem_singleton.1 holds]
      · exact ih others met

end Tile

/-- In a style with short calls only, parentheses of a beautified formula that no line break follows
stand on one line, those of calls among them. -/
theorem oneLine_beautify {style : Style} {t : Text} {tree : Expression}
    (narrow : style.indentSize ≤ widestIndent)
    (short : style.maxInlineLength < groupWidthLimit + 4)
    (accepted : (Formula.ofText t).tree? = .ok tree) (noLineBreak : '\n' ∉ (Formula.ofText t).body)
    {front inside behind : List Piece}
    (split : pieces (beautify style t) = front ++ .char '(' :: (inside ++ .char ')' :: behind))
    (matched : Piece.leftOpen? 0 inside = some 0) (unbroken : inside.head? ≠ some (.char '\n')) :
    '\n' ∉ textOf inside := by
  obtain ⟨ts, laid, -, written⟩ := Formula.exists_laid short accepted noLineBreak
  have whole := written style ⟨rfl, rfl, rfl⟩ narrow
  have nothing : Tile.Surrounded style [] [] := ⟨trivial, fun _ met => absurd met List.not_mem_nil⟩
  have surrounded := laid.surrounded [] (fun _ _ met => absurd met List.not_mem_nil) nothing
  rw [List.append_nil] at surrounded
  have around := surrounded.around
  rw [← whole, split] at around
  obtain ⟨opened, inner⟩ := around.behind
  have follows : ((inside ++ Piece.char ')' :: behind).head? == some (.char '\n')) = false := by
    cases inside with
    | nil => rfl
    | cons p inside => simpa using unbroken
  rw [Piece.brokenAround_opening, follows, ← List.nil_append (false :: opened)] at inner
  have noBreak := inner.noLineBreak matched
  intro met
  obtain ⟨p, isPiece, holds⟩ := List.mem_flatMap.1 met
  have isWritten : p ∈ Tile.write style ts := by
    rw [← whole, split]
    simp [isPiece]
  exact noBreak (Tile.eq_of_mem_write surrounded.inLine isWritten holds ▸ isPiece)

/-- A call on one line inside of a broken one. -/
theorem oneLine_beautify_nested :
    pieces (beautify .standard "=sum(a1,abs(b2))".toList) =
        "=SUM(\n    ├─ a1;\n    └─ ABS".toList.map .char ++ .char '(' ::
          ("b2".toList.map .char ++ .char ')' :: "\n)".toList.map .char) ∧
      '\n' ∉ textOf ("b2".toList.map .char) := by
  have isOk : (Formula.ofText "=sum(a1,abs(b2))".toList).tree?.isOk = true := by
    decide +kernel
  have split : pieces (beautify .standard "=sum(a1,abs(b2))".toList) =
      "=SUM(\n    ├─ a1;\n    └─ ABS".toList.map .char ++ .char '(' ::
        ("b2".toList.map .char ++ .char ')' :: "\n)".toList.map .char) := by
    decide +kernel
  cases accepted : (Formula.ofText "=sum(a1,abs(b2))".toList).tree? with
  | error fault => rw [accepted] at isOk; cases isOk
  | ok tree =>
    exact ⟨split, oneLine_beautify (by decide) (by decide) accepted (by decide +kernel) split
      (by decide +kernel) (by decide)⟩

/-- A call with room for its only argument keeps it on the line of the name, where the group breaks
for its own width. -/
theorem beautify_long_call_breaks :
    (Formula.ofText
        "=sum((10000000000000000000000001+10000000000000000000000002))".toList).tree?.isOk = true ∧
      ∃ inside,
        pieces (beautify { Style.standard with maxInlineLength := 100 }
            "=sum((10000000000000000000000001+10000000000000000000000002))".toList) =
          "=SUM".toList.map .char ++ .char '(' :: (inside ++ .char ')' :: []) ∧
        Piece.leftOpen? 0 inside = some 0 ∧ inside.head? ≠ some (.char '\n') ∧
        '\n' ∈ textOf inside := by
  refine ⟨by decide +kernel,
    "(\n        10000000000000000000000001 + 10000000000000000000000002\n    )".toList.map .char,
    ?_, ?_, ?_, ?_⟩ <;> decide +kernel

end SheetFormula
