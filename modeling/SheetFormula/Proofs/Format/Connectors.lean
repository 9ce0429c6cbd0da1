import SheetFormula.Proofs.Format.Firm

/-!
# Connectors that are ordinary text

The ordinary connectors of a text are the connectors of its essence (`Text.ordinaryConnectors_eq`).
So a formula keeps them when it is beautified, unless one comes to begin a line
(`ordinaryConnectors_beautify`): there it is taken for layout (`beautify_connectors_change`).

## Main definitions

* `Text.ordinaryConnectors` — the connectors outside literals that are no layout
* `Text.connectorsFrom` — all connectors outside literals
-/

namespace SheetFormula

/-- Whether the mark is a connector that is no layout. -/
def Mark.isOrdinaryConnector (m : Mark) : Bool :=
  !m.isLayout && m.piece.satisfies Text.isConnector

/-- The connectors outside literals that are no layout, in order. -/
def Text.ordinaryConnectors (t : Text) : Text :=
  Mark.sourceText ((marks t).filter Mark.isOrdinaryConnector)

namespace Text

/-- The connectors of a text outside its literals. -/
def connectorsFrom (quoted : Bool) : Text → Text
  | [] => []
  | c :: t =>
    (if !quoted && isConnector c then [c] else []) ++ connectorsFrom (quotedBehind quoted c) t

variable {quoted : Bool} {c : Char} {s t : Text}

theorem connectorsFrom_append : connectorsFrom quoted (s ++ t) =
    connectorsFrom quoted s ++ connectorsFrom (quotedAfter quoted s) t := by
  induction s generalizing quoted with
  | nil => rfl
  | cons c s ih =>
    rw [List.cons_append, connectorsFrom, ih, connectorsFrom, List.append_assoc, quotedAfter_cons]

theorem NoConnector.connectorsFrom_eq (free : NoConnector quoted t) :
    connectorsFrom quoted t = [] := by
  induction t generalizing quoted with
  | nil => rfl
  | cons c t ih =>
    rw [connectorsFrom, ih free.2, List.append_nil, if_neg]
    cases quoted <;> simp [free.1]

/-- No connector comes into the essence of another character. -/
theorem connectorsFrom_essential (noQuote : c ≠ '"') :
    connectorsFrom false (essential c) = (if isConnector c then [c] else []) ∧
      quotedAfter false (essential c) = false := by
  by_cases connector : isConnector c = true
  · rw [essential_of_isConnector connector, if_pos connector]
    refine ⟨?_, quotedBehind_other noQuote⟩
    simp [connectorsFrom, connector]
  · have inside : ∀ d ∈ essential c, d ≠ '"' ∧ isConnector d = false := by
      intro d met
      refine ⟨fun isQuote => noQuote ?_, ?_⟩
      · exact (eq_of_mem_essential (by rw [isQuote]; rfl) met).trans isQuote
      · by_contra reserved
        rw [Bool.not_eq_false] at reserved
        have same := eq_of_mem_essential (isReserved_of_isConnector reserved) met
        exact connector (same ▸ reserved)
    rw [if_neg connector]
    have quotes : ∀ d ∈ essential c, d ≠ '"' := fun d met => (inside d met).1
    exact ⟨(noConnector_of_forall quotes fun d met => (inside d met).2).connectorsFrom_eq,
      quotedAfter_eq quotes⟩

end Text

namespace Mark

/-- An ordinary connector is the one connector of its essence. -/
theorem connectorsFrom_essence {c : Char} (noQuote : c ≠ '"') (position : Nat) (layout : Bool) :
    Text.connectorsFrom false (Mark.mk position layout (.char c)).essence =
        (if (Mark.mk position layout (.char c)).isOrdinaryConnector then [c] else []) ∧
      Text.quotedAfter false (Mark.mk position layout (.char c)).essence = false := by
  cases layout with
  | true => exact ⟨rfl, rfl⟩
  | false => exact Text.connectorsFrom_essential noQuote

open Text in
theorem sourceText_filter_place (t : Text) (position : Nat) (indented : Bool) :
    sourceText ((place position indented (pieces t)).filter isOrdinaryConnector) =
      connectorsFrom false ((place position indented (pieces t)).flatMap Mark.essence) := by
  fun_induction pieces t generalizing position indented with
  | case1 => rfl
  | case2 t ih =>
    have literal : connectorsFrom false ('"' :: (literalTail t).text) = [] :=
      NoConnector.connectorsFrom_eq ⟨fun _ => by decide, noConnector_literalTail t⟩
    have side : quotedAfter false ('"' :: (literalTail t).text) = !(literalTail t).closed :=
      (essenceFrom_literalTail t false).2
    rw [place, List.filter_cons_of_neg
      (by simp [isOrdinaryConnector, Piece.satisfies, Piece.char?]), ih, List.flatMap_cons]
    show _ = connectorsFrom false ('"' :: (literalTail t).text ++ _)
    rw [connectorsFrom_append, literal, side, List.nil_append]
    cases closed : (literalTail t).closed with
    | true => rfl
    | false => rw [rest_literalTail_of_unclosed closed, pieces]; rfl
  | case3 c t noQuote ih =>
    have cut : place position indented (.char c :: pieces t) =
        ⟨position, Text.isLayout indented c, .char c⟩ ::
          place (position + 1) (staysIndented indented c) (pieces t) := rfl
    obtain ⟨here, side⟩ := connectorsFrom_essence noQuote position (Text.isLayout indented c)
    rw [cut, List.flatMap_cons, connectorsFrom_append, here, side, ← ih, List.filter_cons]
    split
    · exact sourceText_cons
    · rfl

end Mark

/-- The ordinary connectors of a text are those of its essence. -/
theorem Text.ordinaryConnectors_eq (t : Text) :
    t.ordinaryConnectors = connectorsFrom false t.essence :=
  Mark.sourceText_filter_place t 0 false

/-! ## Formulas -/

/-- An accepted formula keeps its ordinary connectors, if none of them begins an argument or the
inside of a group that gets a line of its own. -/
theorem ordinaryConnectors_beautify {style : Style} {t : Text} {tree : Expression}
    (narrow : style.indentSize ≤ widestIndent) (accepted : (Formula.ofText t).tree? = .ok tree)
    (shelters : tree.sheltered style 0 = true) :
    (Formula.ofText (beautify style t)).body.ordinaryConnectors =
      (Formula.ofText t).body.ordinaryConnectors := by
  rw [Text.ordinaryConnectors_eq, Text.ordinaryConnectors_eq,
    essence_beautify_of_sheltered narrow accepted shelters]

/-- Connectors in a call on one line, inside a leaf and in a literal, and two that are layout. -/
theorem ordinaryConnectors_beautify_inside :
    (Formula.ofText (beautify .standard
      "=if(sum(├1),\"└\",\n ├─ a│b)".toList)).body.ordinaryConnectors = "├│".toList := by
  have isOk : (Formula.ofText "=if(sum(├1),\"└\",\n ├─ a│b)".toList).tree?.isOk = true := by
    decide +kernel
  have shelters : (Formula.ofText "=if(sum(├1),\"└\",\n ├─ a│b)".toList).tree.sheltered
      .standard 0 = true := by
    decide +kernel
  cases accepted : (Formula.ofText "=if(sum(├1),\"└\",\n ├─ a│b)".toList).tree? with
  | error fault => rw [accepted] at isOk; cases isOk
  | ok tree =>
    obtain ⟨rfl, -⟩ := Formula.paired_of_tree? _ accepted
    rw [ordinaryConnectors_beautify (by decide) accepted shelters]
    decide +kernel

/-- An argument that begins with a connector gets a line of its own, where the connector is
layout. -/
theorem beautify_connectors_change :
    (Formula.ofText "=IF(SUM(1),├A1)".toList).tree?.isOk = true ∧
      Style.standard.indentSize ≤ widestIndent ∧
      (Formula.ofText "=IF(SUM(1),├A1)".toList).body.ordinaryConnectors = ['├'] ∧
      (Formula.ofText (beautify .standard "=IF(SUM(1),├A1)".toList)).body.ordinaryConnectors =
        [] := by
  refine ⟨?_, ?_, ?_, ?_⟩ <;> decide +kernel

end SheetFormula
