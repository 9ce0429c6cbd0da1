import SheetFormula.Proofs.Text.Pieces
import Mathlib.Logic.ExistsUnique

/-!
# Texts as literals

Every text has one literal, in which its quotes are written twice (`doubled_injective`). The end of
a literal is found where the literal of some text stops that no further quote follows, and it is
found nowhere else (`literalEndAt_asLiteral`).

## Main definitions

* `Text.doubled`, `Text.asLiteral` — a text between the quotes of its literal, and with them
-/

namespace SheetFormula.Text

/-- The text with every quote written twice. -/
def doubled : Text → Text
  | [] => []
  | c :: t => if c = '"' then '"' :: '"' :: doubled t else c :: doubled t

/-- The literal of a text. -/
def asLiteral (t : Text) : Text :=
  '"' :: (doubled t ++ ['"'])

variable {s t r : Text}

theorem doubled_quote (t : Text) : doubled ('"' :: t) = '"' :: '"' :: doubled t := rfl

theorem doubled_other {c : Char} (noQuote : c ≠ '"') (t : Text) :
    doubled (c :: t) = c :: doubled t := if_neg noQuote

/-! ## Reading a literal -/

/-- Behind its opening quote, the literal of a text is read to its end. -/
theorem literalTail_doubled (s : Text) (alone : t.head? ≠ some '"') :
    literalTail (doubled s ++ '"' :: t) = ⟨doubled s ++ ['"'], true, t⟩ := by
  induction s with
  | nil => exact literalTail_quote alone
  | cons c s ih =>
    by_cases quote : c = '"'
    · rw [quote, doubled_quote]
      exact literalTail_quotes.trans (congrArg (LiteralTail.after _) ih)
    · rw [doubled_other quote]
      exact (literalTail_other quote).trans (congrArg (LiteralTail.after _) ih)

/-- What is read of a closed literal is the literal of a text. -/
theorem exists_doubled_of_closed (closed : (literalTail t).closed = true) :
    ∃ s, (literalTail t).text = doubled s ++ ['"'] := by
  fun_induction literalTail t with
  | case1 => cases closed
  | case2 t ih =>
    obtain ⟨s, text⟩ := ih closed
    exact ⟨'"' :: s, congrArg (['"', '"'] ++ ·) text⟩
  | case3 => exact ⟨[], rfl⟩
  | case4 c t noQuote ih =>
    obtain ⟨s, text⟩ := ih closed
    refine ⟨c :: s, ?_⟩
    rw [doubled_other noQuote]
    exact congrArg ([c] ++ ·) text

/-- Different texts have different literals, whatever stands behind them. -/
theorem doubled_injective (same : doubled s = doubled t) : s = t := by
  induction s generalizing t with
  | nil =>
    cases t with
    | nil => rfl
    | cons d t => rw [doubled, doubled] at same; split at same <;> cases same
  | cons c s ih =>
    cases t with
    | nil => rw [doubled, doubled] at same; split at same <;> cases same
    | cons d t =>
      rw [doubled, doubled] at same
      grind

theorem asLiteral_injective (same : asLiteral s = asLiteral t) : s = t :=
  doubled_injective (List.append_cancel_right (List.cons.inj same).2)

/-- A closed literal is the literal of a text, with no quote behind it. -/
theorem exists_asLiteral (closed : (literalTail t).closed = true) :
    ∃ s r, '"' :: t = asLiteral s ++ r ∧ r.head? ≠ some '"' := by
  obtain ⟨s, text⟩ := exists_doubled_of_closed closed
  refine ⟨s, (literalTail t).rest, ?_, head?_rest_literalTail closed⟩
  rw [asLiteral, ← text, List.cons_append, literalTail_whole]

/-! ## Positions -/

theorem literalEndAt_append (p t : Text) : literalEndAt (p ++ '"' :: t) p.length =
    if (literalTail t).closed then ⟨p.length + 1 + (literalTail t).text.length, true⟩
    else ⟨(p ++ '"' :: t).length, false⟩ := by
  have behind : (p ++ '"' :: t).drop (p.length + 1) = t := by
    rw [← List.drop_drop, List.drop_left, List.drop_one, List.tail_cons]
  rw [literalEndAt, behind, max_eq_left (by simp)]

/-- The literal of a text stops behind its closing quote. -/
theorem literalEndAt_literal (p s : Text) (alone : r.head? ≠ some '"') :
    literalEndAt (p ++ (asLiteral s ++ r)) p.length =
      ⟨p.length + (asLiteral s).length, true⟩ := by
  have found := literalEndAt_append p (doubled s ++ '"' :: r)
  rw [literalTail_doubled s alone, if_pos rfl] at found
  simpa [asLiteral, Nat.add_assoc, Nat.add_comm] using found

/-- A character and what stands on both sides of it. -/
theorem exists_append_of_getElem? {start : Nat} {c : Char} (found : t[start]? = some c) :
    ∃ p u, t = p ++ c :: u ∧ p.length = start := by
  obtain ⟨within, rfl⟩ := List.getElem?_eq_some_iff.1 found
  refine ⟨t.take start, t.drop (start + 1), ?_, List.length_take_of_le (Nat.le_of_lt within)⟩
  rw [List.getElem_cons_drop, List.take_append_drop]

theorem slice_append {p u v : Text} {stop : Nat} (position : p.length + u.length = stop) :
    slice (p ++ (u ++ v)) p.length stop = u := by
  rw [slice, ← List.append_assoc, List.take_left' (by rw [List.length_append, position]),
    List.drop_left]

/-- A span that is not empty, with what stands around it. -/
theorem drop_eq_slice_append {start stop : Nat} (visible : slice t start stop ≠ []) :
    t.drop start = slice t start stop ++ t.drop stop := by
  have order : start < stop := by
    by_contra before
    refine visible (List.drop_eq_nil_of_le ?_)
    exact Nat.le_trans (List.length_take_le stop t) (Nat.le_of_not_lt before)
  conv_lhs => rw [← List.take_append_drop stop t]
  rw [slice, List.drop_append]
  by_cases within : stop ≤ t.length
  · rw [List.length_take_of_le within, Nat.sub_eq_zero_of_le (Nat.le_of_lt order), List.drop_zero]
  · rw [List.drop_eq_nil_of_le (Nat.le_of_not_le within), List.drop_nil]

/-- The literal of any text is found wherever it stands without a further quote behind it. And what
is found behind an opening quote is the literal of exactly one text, with no quote behind it; if the
literal is unclosed, it runs to the end, and no literal of a text stands there without a further
quote behind it. -/
theorem literalEndAt_asLiteral :
    (∀ p s t : Text, t.head? ≠ some '"' →
      literalEndAt (p ++ asLiteral s ++ t) p.length = ⟨p.length + (asLiteral s).length, true⟩) ∧
    ∀ (t : Text) (start : Nat), t[start]? = some '"' →
      ((literalEndAt t start).closed = true →
        (literalEndAt t start).stop ≤ t.length ∧
        (∃! s, slice t start (literalEndAt t start).stop = asLiteral s) ∧
        t[(literalEndAt t start).stop]? ≠ some '"') ∧
      ((literalEndAt t start).closed = false →
        (literalEndAt t start).stop = t.length ∧
        ∀ s stop, slice t start stop = asLiteral s → t[stop]? = some '"') := by
  refine ⟨fun p s t alone => ?_, fun t start opens => ?_⟩
  · rw [List.append_assoc]
    exact literalEndAt_literal p s alone
  obtain ⟨p, u, rfl, rfl⟩ := exists_append_of_getElem? opens
  cases closed : (literalTail u).closed with
  | true =>
    obtain ⟨s, r, parts, alone⟩ := exists_asLiteral closed
    rw [parts, literalEndAt_literal p s alone]
    refine ⟨fun _ => ⟨by simp, ⟨s, slice_append rfl, fun other same => ?_⟩, ?_⟩, Bool.noConfusion⟩
    · exact asLiteral_injective (same.symm.trans (slice_append rfl))
    · rw [← List.append_assoc, ← List.length_append, List.getElem?_append_right le_rfl,
        Nat.sub_self, ← List.head?_eq_getElem?]
      exact alone
  | false =>
    rw [literalEndAt_append, closed, if_neg Bool.false_ne_true]
    refine ⟨Bool.noConfusion, fun _ => ⟨rfl, fun s stop same => ?_⟩⟩
    -- a literal without a further quote behind it would have been read to its end
    by_contra alone
    have visible : slice (p ++ '"' :: u) p.length stop ≠ [] := by
      rw [same]
      exact List.cons_ne_nil _ _
    have behind := drop_eq_slice_append visible
    rw [List.drop_left, same, asLiteral, List.cons_append, List.append_assoc,
      List.singleton_append] at behind
    rw [← List.head?_drop] at alone
    rw [(List.cons.inj behind).2, literalTail_doubled s alone] at closed
    cases closed

/-- A literal with two quotes inside, and one that a further quote keeps open. -/
theorem literalEndAt_asLiteral_quotes :
    literalEndAt "1&\"say \"\"x\"\"\"&2".toList 2 = ⟨13, true⟩ ∧
      (∃! s, slice "1&\"say \"\"x\"\"\"&2".toList 2 13 = asLiteral s) ∧
      ∀ s stop, slice "\"\"\"".toList 0 stop = asLiteral s →
        "\"\"\"".toList[stop]? = some '"' := by
  have closed := literalEndAt_asLiteral.1 "1&".toList "say \"x\"".toList "&2".toList (by decide)
  have stop : literalEndAt "1&\"say \"\"x\"\"\"&2".toList 2 = ⟨13, true⟩ := closed
  have back := (literalEndAt_asLiteral.2 "1&\"say \"\"x\"\"\"&2".toList 2 (by decide)).1
    (by rw [stop])
  rw [stop] at back
  exact ⟨stop, back.2.1,
    ((literalEndAt_asLiteral.2 "\"\"\"".toList 0 (by decide)).2 (by decide)).2⟩

end SheetFormula.Text
