import SheetFormula.Json.Number
import Mathlib.Data.List.TakeWhile

/-!
# Blanks, words and numbers found

A scanner finds what stands in front of a text, and leaves what stands behind it. Here this is said
of blanks, words and numbers. Blanks and words end by themselves; a number is found if the text
behind it does not go on with it (`finds_scanNumeral`).

## Main definitions

* `Json.Finds` — an answer that is a value and a rest
* `Json.Blanks` — blanks only
* `Json.Ends` — texts that no number goes on with
* `Json.IsDigits`, `Json.IsInteger`, `Json.IsFraction`, `Json.IsExponent`, `Json.IsNumeral` — how
  numbers are written
-/

namespace SheetFormula.Json

/-- The scanner finds the value and leaves the rest. -/
def Finds {α : Type} {t : Text} (answer : Except Fault (Scanned α t)) (value : α)
    (rest : Text) : Prop :=
  ∃ shorter, answer = .ok ⟨value, rest, shorter⟩

theorem Finds.map {α β : Type} {t rest : Text} {answer : Except Fault (Scanned α t)} {value : α}
    (finds : Finds answer value rest) (f : α → β) :
    Finds (answer.map fun found => found.withValue (f found.value)) (f value) rest := by
  obtain ⟨shorter, rfl⟩ := finds
  exact ⟨shorter, rfl⟩

/-- Blanks only, or nothing. -/
def Blanks (t : Text) : Prop :=
  ∀ c ∈ t, isBlank c = true

variable {b t rest : Text} {c : Char}

theorem blanks_nil : Blanks [] := fun _ met => absurd met List.not_mem_nil

/-! ## Characters and words -/

/-- Behind blanks the first other character comes next. -/
theorem next?_blanks (blanks : Blanks b) (visible : isBlank c = false) :
    ∃ shorter, next? (b ++ c :: t) = some ⟨c, t, shorter⟩ := by
  induction b with
  | nil =>
    refine ⟨Nat.lt_succ_self _, ?_⟩
    show next? (c :: t) = _
    rw [next?, if_neg (Bool.not_eq_true _ ▸ visible)]
    rfl
  | cons d b ih =>
    obtain ⟨isBlank, behind⟩ := List.forall_mem_cons.1 blanks
    obtain ⟨shorter, found⟩ := ih behind
    refine ⟨Nat.lt_succ_of_lt shorter, ?_⟩
    show next? (d :: (b ++ c :: t)) = _
    rw [next?, if_pos isBlank, found]
    rfl

theorem finds_expectChar (blanks : Blanks b) (visible : isBlank c = false) :
    Finds (expectChar c (b ++ c :: t)) () t := by
  obtain ⟨shorter, found⟩ := next?_blanks (t := t) blanks visible
  refine ⟨shorter, ?_⟩
  rw [expectChar, found]
  exact if_pos rfl

theorem expectWord_append (word rest : Text) :
    ∃ le, expectWord word (word ++ rest) = .ok ⟨rest, le⟩ := by
  induction word with
  | nil => exact ⟨Nat.le_refl _, rfl⟩
  | cons w word ih =>
    obtain ⟨le, found⟩ := ih
    refine ⟨Nat.le_succ_of_le le, ?_⟩
    show expectWord (w :: word) (w :: (word ++ rest)) = _
    rw [expectWord, if_pos rfl, found]
    rfl

/-! ## Digits -/

/-- Digits, at least one. -/
structure IsDigits (t : Text) : Prop where
  nonempty : t ≠ []
  digits : ∀ c ∈ t, c.isDigit = true

/-- A zero alone, or digits that begin with another one. -/
structure IsInteger (t : Text) : Prop extends IsDigits t where
  noLeadingZero : t.head? = some '0' → t = ['0']

/-- What no number goes on with. -/
def Ends (t : Text) : Prop :=
  ∀ c, t.head? = some c → c.isDigit = false ∧ c ≠ '.' ∧ c ≠ 'e' ∧ c ≠ 'E'

/-- A number ends in front of a blank, and in front of what stands between and behind values. -/
theorem ends_blanks (blanks : Blanks b) (closes : c = ',' ∨ c = ']' ∨ c = '\x7d') :
    Ends (b ++ c :: t) := by
  intro d head
  cases b with
  | nil =>
    obtain rfl : c = d := Option.some.inj head
    rcases closes with rfl | rfl | rfl <;> decide
  | cons e b =>
    obtain rfl : e = d := Option.some.inj head
    have isBlank := blanks e List.mem_cons_self
    simp only [Json.isBlank, Bool.or_eq_true, beq_iff_eq] at isBlank
    rcases isBlank with ((rfl | rfl) | rfl) | rfl <;> decide

theorem takeWhile_append_of_ends {p : Char → Bool} (all : ∀ c ∈ t, p c = true)
    (ends : ∀ c, rest.head? = some c → p c = false) : (t ++ rest).takeWhile p = t := by
  rw [List.takeWhile_append_of_pos all]
  cases rest with
  | nil => exact List.append_nil t
  | cons c rest =>
    rw [List.takeWhile_cons_of_neg (Bool.not_eq_true _ ▸ ends c rfl), List.append_nil]

theorem dropWhile_append_of_ends {p : Char → Bool} (all : ∀ c ∈ t, p c = true)
    (ends : ∀ c, rest.head? = some c → p c = false) : (t ++ rest).dropWhile p = rest := by
  rw [List.dropWhile_append_of_pos all]
  cases rest with
  | nil => rfl
  | cons c rest => exact List.dropWhile_cons_of_neg (Bool.not_eq_true _ ▸ ends c rfl)

/-- A run of digits is found up to its end. -/
theorem finds_someDigits (atEnd : Fault) (digits : IsDigits t)
    (ends : ∀ c, rest.head? = some c → c.isDigit = false) :
    Finds (someDigits atEnd (t ++ rest)) t rest := by
  obtain ⟨c, t, rfl⟩ := List.exists_cons_of_ne_nil digits.nonempty
  obtain ⟨first, others⟩ := List.forall_mem_cons.1 digits.digits
  refine ⟨by rw [List.length_append, List.length_cons]; omega, ?_⟩
  show someDigits atEnd (c :: (t ++ rest)) = _
  simp only [someDigits, first, if_true, takeWhile_append_of_ends others ends,
    dropWhile_append_of_ends others ends]

theorem finds_integerDigits (atEnd : Fault) (integer : IsInteger t)
    (ends : ∀ c, rest.head? = some c → c.isDigit = false) :
    Finds (integerDigits atEnd (t ++ rest)) t rest := by
  obtain ⟨shorter, found⟩ := finds_someDigits atEnd integer.toIsDigits ends
  refine ⟨shorter, ?_⟩
  rw [integerDigits, found]
  refine if_neg ?_
  rintro ⟨zero, several⟩
  obtain rfl : t = ['0'] := integer.noLeadingZero zero
  exact Nat.lt_irrefl 1 several

/-! ## Numbers -/

/-- How the digits behind the point are written, or none. -/
inductive IsFraction : Option Text → Text → Prop where
  | absent : IsFraction none []
  | digits {t : Text} (digits : IsDigits t) : IsFraction (some t) ('.' :: t)

/-- How an exponent with its sign is written, or none. -/
inductive IsExponent : Option (Bool × Text) → Text → Prop where
  | absent : IsExponent none []
  | unsigned {e : Char} {t : Text} (letter : e = 'e' ∨ e = 'E') (digits : IsDigits t) :
      IsExponent (some (false, t)) (e :: t)
  | positive {e : Char} {t : Text} (letter : e = 'e' ∨ e = 'E') (digits : IsDigits t) :
      IsExponent (some (false, t)) (e :: '+' :: t)
  | negative {e : Char} {t : Text} (letter : e = 'e' ∨ e = 'E') (digits : IsDigits t) :
      IsExponent (some (true, t)) (e :: '-' :: t)

/-- How a number without its sign is written. -/
inductive IsNumeral (n : Numeral) : Text → Prop where
  | parts {f e : Text} (integer : IsInteger n.integer) (fraction : IsFraction n.fraction f)
      (exponent : IsExponent n.exponent e) : IsNumeral n (n.integer ++ (f ++ e))

theorem IsNumeral.exists_digit {n : Numeral} (numeral : IsNumeral n t) :
    ∃ c u, t = c :: u ∧ c.isDigit = true := by
  obtain ⟨integer, -, -⟩ := numeral
  obtain ⟨c, ds, whole⟩ := List.exists_cons_of_ne_nil integer.nonempty
  refine ⟨c, _, congrArg (· ++ _) whole, integer.digits c ?_⟩
  rw [whole]
  exact List.mem_cons_self

theorem optionalFraction_append (atEnd : Fault) {fraction : Option Text} {f : Text}
    (written : IsFraction fraction f) (noDigit : ∀ c, rest.head? = some c → c.isDigit = false)
    (noPoint : rest.head? ≠ some '.') :
    ∃ le, optionalFraction atEnd (f ++ rest) = .ok ⟨fraction, rest, le⟩ := by
  cases written with
  | absent =>
    refine ⟨Nat.le_refl _, ?_⟩
    show optionalFraction atEnd rest = _
    unfold optionalFraction
    split
    · exact absurd rfl noPoint
    · rfl
  | @digits t digits =>
    obtain ⟨shorter, found⟩ := finds_someDigits atEnd digits noDigit
    refine ⟨Nat.le_succ_of_le (Nat.le_of_lt shorter), ?_⟩
    show optionalFraction atEnd ('.' :: (t ++ rest)) = _
    rw [optionalFraction, found]
    rfl

theorem exponentSign_digits (digits : IsDigits t) (rest : Text) :
    exponentSign (t ++ rest) = (false, t ++ rest) := by
  obtain ⟨c, t, rfl⟩ := List.exists_cons_of_ne_nil digits.nonempty
  have first := digits.digits c List.mem_cons_self
  rw [List.cons_append, exponentSign]
  · rintro _ sign
    obtain rfl := (List.cons.inj sign).1
    exact absurd first (by decide)
  · rintro _ sign
    obtain rfl := (List.cons.inj sign).1
    exact absurd first (by decide)

theorem optionalExponent_append (atEnd : Fault) {exponent : Option (Bool × Text)} {e : Text}
    (written : IsExponent exponent e) (ends : Ends rest) :
    ∃ le, optionalExponent atEnd (e ++ rest) = .ok ⟨exponent, rest, le⟩ := by
  have noDigit : ∀ c, rest.head? = some c → c.isDigit = false := fun c head => (ends c head).1
  -- behind its letter and its sign, an exponent is a run of digits
  have signed : ∀ {e : Char} {t u : Text} {negative : Bool}, (e = 'e' ∨ e = 'E') → IsDigits t →
      (exponentSign u).1 = negative → (exponentSign u).2 = t ++ rest →
      ∃ le, optionalExponent atEnd (e :: u) = .ok ⟨some (negative, t), rest, le⟩ := by
    rintro e t u _ letter digits rfl behind
    obtain ⟨shorter, found⟩ : Finds (someDigits atEnd (exponentSign u).2) t rest :=
      behind ▸ finds_someDigits atEnd digits noDigit
    have le := length_exponentSign_le u
    refine ⟨by rw [List.length_cons]; omega, ?_⟩
    rw [optionalExponent, if_pos letter, found]
    rfl
  cases written with
  | absent =>
    refine ⟨Nat.le_refl _, ?_⟩
    show optionalExponent atEnd rest = _
    cases rest with
    | nil => rfl
    | cons c rest =>
      obtain ⟨-, -, small, capital⟩ := ends c rfl
      rw [optionalExponent, if_neg (not_or.2 ⟨small, capital⟩)]
      rfl
  | unsigned letter digits =>
    have sign := exponentSign_digits digits rest
    exact signed letter digits (congrArg Prod.fst sign) (congrArg Prod.snd sign)
  | positive letter digits => exact signed letter digits rfl rfl
  | negative letter digits => exact signed letter digits rfl rfl

/-- A number is found up to its end. -/
theorem finds_scanNumeral (atEnd : Fault) {n : Numeral} (numeral : IsNumeral n t)
    (ends : Ends rest) : Finds (scanNumeral atEnd (t ++ rest)) n rest := by
  obtain ⟨i, fraction, exponent⟩ := n
  cases numeral with
  | @parts f e integer isFraction isExponent =>
    -- digits never run on into what comes next
    have behindFraction : ∀ c, (e ++ rest).head? = some c → c.isDigit = false ∧ c ≠ '.' := by
      cases isExponent with
      | absent => exact fun c head => ⟨(ends c head).1, (ends c head).2.1⟩
      | unsigned letter | positive letter | negative letter =>
        rintro c ⟨⟩
        rcases letter with rfl | rfl <;> decide
    have behindInteger : ∀ c, (f ++ (e ++ rest)).head? = some c → c.isDigit = false := by
      cases isFraction with
      | absent => exact fun c head => (behindFraction c head).1
      | digits =>
        rintro c ⟨⟩
        decide
    obtain ⟨first, foundInteger⟩ := finds_integerDigits atEnd integer behindInteger
    obtain ⟨second, foundFraction⟩ := optionalFraction_append atEnd isFraction
      (fun c head => (behindFraction c head).1) fun point => (behindFraction '.' point).2 rfl
    obtain ⟨third, foundExponent⟩ := optionalExponent_append atEnd isExponent ends
    rw [List.append_assoc, List.append_assoc]
    refine ⟨by omega, ?_⟩
    simp only [scanNumeral, foundInteger, foundFraction, foundExponent]

/-! ## Natural numbers -/

theorem naturalOf_toDigits (n : Nat) : naturalOf (Nat.toDigits 10 n) = n := by
  have value := @Nat.ofDigitChars_ten_toDigits n
  rw [Nat.ofDigitChars_eq_foldl] at value
  simpa only [naturalOf, digitValue, Nat.mul_comm] using value

/-- Only zero is written with a zero in front. -/
theorem isInteger_toDigits (n : Nat) : IsInteger (Nat.toDigits 10 n) where
  nonempty := Nat.toDigits_ne_nil
  digits _ met := Nat.isDigit_of_mem_toDigits (by decide) (by decide) met
  noLeadingZero zero := by
    induction n using Nat.strongRecOn with
    | ind n ih =>
      by_cases single : n < 10
      · rw [Nat.toDigits_of_lt_base single] at zero ⊢
        exact congrArg (· :: []) (Option.some.inj zero)
      · have split := Nat.toDigits_append_toDigits (b := 10) (n := n / 10) (d := n % 10)
          (by decide) (by omega) (Nat.mod_lt n (by decide))
        rw [Nat.div_add_mod] at split
        -- the first digit is that of a smaller number
        obtain ⟨c, others, front⟩ :=
          List.exists_cons_of_ne_nil (Nat.toDigits_ne_nil (n := n / 10) (b := 10))
        have smaller := ih (n / 10) (by omega)
        have value := naturalOf_toDigits (n / 10)
        rw [← split, front] at zero
        rw [front] at smaller value
        rw [smaller zero] at value
        exact absurd value (by show 0 ≠ n / 10; omega)

theorem isNumeral_toDigits (n : Nat) :
    IsNumeral ⟨Nat.toDigits 10 n, none, none⟩ (Nat.toDigits 10 n) := by
  have whole : IsNumeral ⟨Nat.toDigits 10 n, none, none⟩ _ :=
    .parts (isInteger_toDigits n) .absent .absent
  rwa [List.append_nil, List.append_nil] at whole

end SheetFormula.Json
