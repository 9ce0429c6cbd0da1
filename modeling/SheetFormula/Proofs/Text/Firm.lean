import SheetFormula.Proofs.Text.Essence

/-!
# Texts with ordinary connectors

Whether a connector is layout depends on what stands in front of it, so a text cannot in general be
cut and put together again without changing its essence. Two properties allow it: in a firm text no
connector is layout, and a settled text leaves nothing behind on which the layout of the next text
would depend. A firm text stays so when it is moved to the inside of a line, and is settled once
the blanks around it are gone (`Firm.settled_trim`).

## Main definitions

* `Text.Steady` — no connector stands in an indentation
* `Text.Firm` — steady texts with closed literals
* `Text.Settled` — texts that end neither in a literal nor in an indentation
-/

namespace SheetFormula.Text

/-- No connector outside literals stands in the indentation of a line. -/
def Steady (quoted indented : Bool) : Text → Prop
  | [] => True
  | c :: t => (quoted = false → indented = true → isConnector c = false) ∧
      Steady (quotedBehind quoted c) (staysIndented indented c) t

/-- A text with closed literals in which no connector is layout. -/
structure Firm (t : Text) : Prop where
  closed : quotedAfter false t = false
  steady : Steady false false t

/-- A text that ends neither in a literal nor in the indentation of a line. -/
structure Settled (t : Text) : Prop where
  closed : quotedAfter false t = false
  outside : indentedAfter false t = false

variable {quoted i j : Bool} {c : Char} {s t : Text}

/-! ## Indentations -/

@[simp] theorem indentedAfter_cons :
    indentedAfter i (c :: t) = indentedAfter (staysIndented i c) t := rfl

theorem staysIndented_mono (below : i = true → j = true) :
    staysIndented i c = true → staysIndented j c = true := by
  simp only [staysIndented, Bool.or_eq_true, Bool.and_eq_true]
  exact Or.imp_right (And.imp_left below)

/-- A text that begins further inside a line ends further inside it. -/
theorem indentedAfter_mono (below : i = true → j = true) :
    indentedAfter i t = true → indentedAfter j t = true := by
  induction t generalizing i j with
  | nil => exact below
  | cons c t ih => exact ih (staysIndented_mono below)

theorem staysIndented_eq_false (noBlank : isBlank c = false)
    (noConnector : i = true → isConnector c = false) : staysIndented i c = false := by
  have noBreak : c ≠ '\n' ∧ c ≠ '\r' := by
    constructor <;> (rintro rfl; revert noBlank; decide)
  cases i <;> simp_all [staysIndented]

/-- Where no indentation begins with a connector, it does not matter whether one begins. -/
theorem essenceFrom_cons (noBlank : isBlank c = false)
    (noConnector : i = true → isConnector c = false) :
    essenceFrom false i (c :: t) = essenceFrom false false (c :: t) := by
  have inside : staysIndented false c = false :=
    staysIndented_eq_false noBlank fun none => Bool.noConfusion none
  have here : essentialAt false i c = essentialAt false false c := by
    cases i <;> simp_all [essentialAt, isLayout]
  rw [essenceFrom, essenceFrom, here, inside, staysIndented_eq_false noBlank noConnector]

/-! ## Steady texts -/

theorem steady_append :
    Steady quoted i (s ++ t) ↔
      Steady quoted i s ∧ Steady (quotedAfter quoted s) (indentedAfter i s) t := by
  induction s generalizing quoted i with
  | nil => exact (true_and _).symm.to_iff
  | cons c s ih => rw [List.cons_append, Steady, Steady, ih, and_assoc]; rfl

/-- Further inside a line a text stays steady, and keeps its essence. -/
theorem Steady.mono (below : i = true → j = true) (steady : Steady quoted j t) :
    Steady quoted i t ∧ essenceFrom quoted i t = essenceFrom quoted j t := by
  induction t generalizing quoted i j with
  | nil => exact ⟨trivial, rfl⟩
  | cons c t ih =>
    obtain ⟨first, rest⟩ := steady
    obtain ⟨later, same⟩ := ih (staysIndented_mono below) rest
    have here : essentialAt quoted i c = essentialAt quoted j c := by
      cases quoted with
      | true => rfl
      | false => cases i <;> cases j <;> simp_all [essentialAt, isLayout]
    exact ⟨⟨fun outside indented => first outside (below indented), later⟩,
      by rw [essenceFrom, essenceFrom, here, same]⟩

theorem NoConnector.steady (free : NoConnector quoted t) : Steady quoted i t := by
  induction t generalizing quoted i with
  | nil => trivial
  | cons c t ih => exact ⟨fun outside _ => free.1 outside, ih free.2⟩

@[simp] theorem firm_nil : Firm [] := ⟨rfl, trivial⟩

/-- A text that continues a firm one adds the essence that it has there. -/
theorem Firm.append (firm : Firm s) (closed : quotedAfter false t = false)
    (steady : Steady false (indentedAfter false s) t) :
    Firm (s ++ t) ∧
      (s ++ t).essence = s.essence ++ essenceFrom false (indentedAfter false s) t := by
  refine ⟨⟨?_, ?_⟩, ?_⟩
  · rw [quotedAfter_append, firm.closed, closed]
  · rw [steady_append, firm.closed]
    exact ⟨firm.steady, steady⟩
  · rw [essence_eq, essence_eq, essenceFrom_append, firm.closed]

/-- What stands before a text without quotes is firm by itself. -/
theorem Firm.left (firm : Firm (s ++ t)) (noQuote : ∀ c ∈ t, c ≠ '"') : Firm s := by
  have closed := firm.closed
  rw [quotedAfter_append, quotedAfter_eq noQuote] at closed
  exact ⟨closed, (steady_append.1 firm.steady).1⟩

/-! ## Settled texts -/

@[simp] theorem settled_nil : Settled [] := ⟨rfl, rfl⟩

theorem Settled.append (settled : Settled s) (other : Settled t) : Settled (s ++ t) := by
  constructor
  · rw [quotedAfter_append, settled.closed, other.closed]
  · rw [indentedAfter_append, settled.outside, other.outside]

/-- Behind a settled text, the next one has the essence that it has by itself. -/
theorem Settled.essence_append (settled : Settled s) (t : Text) :
    (s ++ t).essence = s.essence ++ t.essence := by
  rw [essence_eq, essence_eq, essence_eq, essenceFrom_append, settled.closed, settled.outside]

/-- A text is settled that ends in a character which is neither a blank nor layout. -/
theorem settled_concat (closed : quotedAfter false (s ++ [c]) = false) (noBlank : isBlank c = false)
    (steady : Steady (quotedAfter false s) (indentedAfter false s) [c]) : Settled (s ++ [c]) := by
  refine ⟨closed, ?_⟩
  rw [indentedAfter_append]
  refine staysIndented_eq_false noBlank fun indented => ?_
  cases side : quotedAfter false s with
  | false => exact steady.1 side indented
  | true =>
    -- only the closing quote leads out of a literal
    rw [quotedAfter_append, side] at closed
    have quote : c = '"' := by
      by_contra noQuote
      rw [quotedAfter_cons, quotedBehind_other noQuote] at closed
      cases closed
    rw [quote]
    decide

/-- Without the blanks around it, a firm text is firm and has the same essence. -/
theorem Firm.trim (firm : Firm t) : Firm (trim t) ∧ (Text.trim t).essence = t.essence := by
  obtain ⟨lead, trail, whole, leading, trailing⟩ := trimEnds_split isBlank t
  rw [Text.trim]
  generalize trimEnds isBlank t = core at whole
  subst whole
  have leadSide : quotedAfter false lead = false :=
    quotedAfter_eq fun c met => ne_quote_of_isBlank (leading c met)
  have trailFree : Tidy trail := (tidy_blanks trailing).1
  have steady := (steady_append.1 (steady_append.1 firm.steady).1).2
  have closed := (firm.left fun c met => ne_quote_of_isBlank (trailing c met)).closed
  rw [quotedAfter_append, leadSide] at closed
  rw [leadSide] at steady
  obtain ⟨coreSteady, same⟩ := steady.mono (i := false) fun indented => Bool.noConfusion indented
  refine ⟨⟨closed, coreSteady⟩, ?_⟩
  rw [essence_eq, essence_eq, essenceFrom_append, essenceFrom_append, same, quotedAfter_append,
    leadSide, closed, trailFree.noConnector.essenceFrom_eq _ false, ← essence_eq trail,
    (tidy_blanks trailing).2, ← essence_eq lead, (tidy_blanks leading).2, List.nil_append,
    List.append_nil]

/-- A firm text that does not end in a blank is settled. -/
theorem Firm.settled (firm : Firm t) (last : ∀ c, t.getLast? = some c → isBlank c = false) :
    Settled t := by
  rcases List.eq_nil_or_concat t with rfl | ⟨init, c, rfl⟩
  · exact settled_nil
  · rw [List.concat_eq_append] at firm last ⊢
    exact settled_concat firm.closed (last c (by simp)) (steady_append.1 firm.steady).2

/-- Without the blanks around it, a firm text is settled and has the same essence. -/
theorem Firm.settled_trim (firm : Firm t) :
    Settled (Text.trim t) ∧ (Text.trim t).essence = t.essence :=
  ⟨firm.trim.1.settled fun _ => getLast?_trimEnds, firm.trim.2⟩

end SheetFormula.Text
