import SheetFormula.Text.Identifier
import SheetFormula.Proofs.Text.Ends

/-!
# Numerals in front of an exponent

The sign behind `e` or `E` belongs to an exponent if a numeral stands in front of the letter that is
no part of a name or of something longer. The test cuts the longest run of letters, digits and dots
off the end of the text and looks at nothing else. Still it tells exactly those texts
(`Text.awaitsExponent_iff`): a numeral and its letter make up such a run, and the character that may
stand in front of them ends it.

## Main definitions

* `Text.IsNumeral` — digits with at most one dot
-/

namespace SheetFormula.Text

/-- Digits, or digits on the two sides of a dot. A digit stands somewhere, but one side of the dot
may be empty. -/
inductive IsNumeral : Text → Prop where
  | whole {t : Text} (digits : ∀ c ∈ t, c.isDigit = true) (visible : t ≠ []) : IsNumeral t
  | decimal {front behind : Text} (integer : ∀ c ∈ front, c.isDigit = true)
      (fraction : ∀ c ∈ behind, c.isDigit = true) (visible : front ++ behind ≠ []) :
      IsNumeral (front ++ '.' :: behind)

variable {t : Text}

/-! ## Digits and dots -/

/-- A run of digits leaves nothing behind but that a digit was met. -/
theorem isMantissaFrom_append {front : Text} {digitMet dotMet : Bool}
    (digits : ∀ c ∈ front, c.isDigit = true) :
    isMantissaFrom digitMet dotMet (front ++ t) =
      isMantissaFrom (digitMet || !front.isEmpty) dotMet t := by
  induction front generalizing digitMet with
  | nil => simp
  | cons c front ih =>
    obtain ⟨digit, digits⟩ := List.forall_mem_cons.1 digits
    rw [List.cons_append, isMantissaFrom, if_pos digit, ih digits]
    simp

/-- Behind a dot, only digits go on. -/
theorem isMantissaFrom_dot {digitMet : Bool} : isMantissaFrom digitMet true t = true ↔
    (∀ c ∈ t, c.isDigit = true) ∧ (digitMet = true ∨ t ≠ []) := by
  induction t generalizing digitMet with
  | nil => simp [isMantissaFrom]
  | cons c t ih =>
    rw [isMantissaFrom, List.forall_mem_cons]
    split
    · next digit => simp [ih, digit]
    · next other => simp [other]

theorem isMantissa_digits {front : Text} (digits : ∀ c ∈ front, c.isDigit = true) :
    isMantissa front = true ↔ front ≠ [] := by
  rw [isMantissa, ← List.append_nil front, isMantissaFrom_append digits]
  simp [isMantissaFrom]

/-- Behind a run of digits, a mantissa goes on with a dot and more digits. -/
theorem isMantissa_digits_other {front behind : Text} {c : Char}
    (digits : ∀ d ∈ front, d.isDigit = true) (other : c.isDigit = false) :
    isMantissa (front ++ c :: behind) = true ↔
      c = '.' ∧ (∀ d ∈ behind, d.isDigit = true) ∧ front ++ behind ≠ [] := by
  rw [isMantissa, isMantissaFrom_append digits, isMantissaFrom, if_neg (by simp [other])]
  split
  · next dot =>
    obtain rfl : c = '.' := by simpa using dot
    rw [isMantissaFrom_dot]
    simp [imp_iff_not_or]
  · next noDot =>
    have mismatch : c ≠ '.' := by simpa using noDot
    simp [mismatch]

/-- The dot, if there is one, cuts a mantissa into two runs of digits. -/
theorem isMantissa_iff : isMantissa t = true ↔ IsNumeral t := by
  constructor
  · intro mantissa
    have digits : ∀ c ∈ t.takeWhile Char.isDigit, c.isDigit = true :=
      fun c met => List.mem_takeWhile_imp met
    have stopped := List.head?_dropWhile_not Char.isDigit t
    rw [← t.takeWhile_append_dropWhile (p := Char.isDigit)] at mantissa ⊢
    cases rest : t.dropWhile Char.isDigit with
    | nil =>
      rw [rest, List.append_nil] at mantissa
      rw [List.append_nil]
      exact .whole digits ((isMantissa_digits digits).1 mantissa)
    | cons c behind =>
      rw [rest] at mantissa stopped
      obtain ⟨rfl, fraction, visible⟩ := (isMantissa_digits_other digits stopped).1 mantissa
      exact .decimal digits fraction visible
  · intro numeral
    cases numeral with
    | whole digits visible => exact (isMantissa_digits digits).2 visible
    | decimal integer fraction visible =>
      exact (isMantissa_digits_other integer rfl).2 ⟨rfl, fraction, visible⟩

theorem IsNumeral.isDigit_or_dot (numeral : IsNumeral t) : ∀ c ∈ t, c.isDigit = true ∨ c = '.' := by
  cases numeral with
  | whole digits _ => exact fun c met => .inl (digits c met)
  | decimal integer fraction _ =>
    refine List.forall_mem_append.2 ⟨fun c met => .inl (integer c met), ?_⟩
    exact List.forall_mem_cons.2 ⟨.inr rfl, fun c met => .inl (fraction c met)⟩

/-! ## The run at the end -/

/-- The run at the end is cut in front of its last character. -/
theorem awaitsExponent_iff_run : awaitsExponent t = true ↔ ∃ numeral marker,
    takeEndWhile isNumeralChar t = numeral ++ [marker] ∧ IsNumeral numeral ∧
      (marker = 'e' ∨ marker = 'E') := by
  rw [awaitsExponent]
  rcases List.eq_nil_or_concat (takeEndWhile isNumeralChar t) with run | ⟨numeral, marker, run⟩
  · simp [run]
  · rw [List.concat_eq_append] at run
    simp [run, isMantissa_iff, and_comm]

theorem isNumeralChar_of_numeral {marker : Char} (numeral : IsNumeral t)
    (letter : marker = 'e' ∨ marker = 'E') : ∀ c ∈ t ++ [marker], isNumeralChar c = true := by
  refine List.forall_mem_append.2 ⟨fun c met => ?_, List.forall_mem_singleton.2 ?_⟩
  · rcases numeral.isDigit_or_dot c met with digit | rfl
    · simp [isNumeralChar, Char.isAlphanum, digit]
    · rfl
  · rcases letter with rfl | rfl <;> rfl

theorem isNumeralChar_eq_false {c : Char} :
    isNumeralChar c = false ↔ c.isAlphanum = false ∧ c ≠ '.' := by
  simp [isNumeralChar]

/-- A text awaits the sign of an exponent exactly if it ends in a numeral and `e` or `E`, where the
numeral begins the text or stands behind a character that is no dot and no letter or digit of the
basic alphabet. -/
theorem awaitsExponent_iff (t : Text) :
    awaitsExponent t = true ↔ ∃ front numeral marker, t = front ++ numeral ++ [marker] ∧
      IsNumeral numeral ∧ (marker = 'e' ∨ marker = 'E') ∧
      ∀ c, front.getLast? = some c → c.isAlphanum = false ∧ c ≠ '.' := by
  rw [awaitsExponent_iff_run]
  constructor
  · rintro ⟨numeral, marker, run, isNumeral, letter⟩
    obtain ⟨front, rfl, -, before⟩ := takeEndWhile_eq_iff.1 run
    refine ⟨front, numeral, marker, (List.append_assoc ..).symm, isNumeral, letter, ?_⟩
    exact fun c last => isNumeralChar_eq_false.1 (before c last)
  · rintro ⟨front, numeral, marker, rfl, isNumeral, letter, before⟩
    refine ⟨numeral, marker, takeEndWhile_eq_iff.2 ⟨front, List.append_assoc .., ?_, ?_⟩,
      isNumeral, letter⟩
    · exact isNumeralChar_of_numeral isNumeral letter
    · exact fun c last => isNumeralChar_eq_false.2 (before c last)

/-- Behind a sign, a numeral may begin with its dot; the digits of a reference are no numeral. -/
example : awaitsExponent "A1*-.5e".toList = true ∧ awaitsExponent "A1E".toList = false := by decide

end SheetFormula.Text
