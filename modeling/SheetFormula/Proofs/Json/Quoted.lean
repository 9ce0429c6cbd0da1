import SheetFormula.Json.Quoted
import SheetFormula.Proofs.Json.Scanned

/-!
# Strings found

A string writes a text: plain characters as they are, any character by an escape, and one beyond the
first 65536 by the escapes of its two halves. Whatever way it is written, the text is found
(`finds_readQuoted`). A half that stands alone writes no text; where nobody asks for the text, it
makes no difference (`finds_readQuoted_unread`).

## Main definitions

* `Json.IsUnit` — four hexadecimal digits
* `Json.Spells` — what is written between the quotes of a string, and the text that it means
* `Json.IsContent` — what stands between the quotes of a string, halves of characters included
-/

namespace SheetFormula.Json

/-- The characters that stand for themselves in a string. -/
def IsPlain (c : Char) : Prop :=
  c ≠ '"' ∧ c ≠ '\\' ∧ ¬c < ' '

instance : DecidablePred IsPlain := fun c =>
  inferInstanceAs (Decidable (c ≠ '"' ∧ c ≠ '\\' ∧ ¬c < ' '))

/-- The letters behind a backslash, and what they stand for. -/
def shortEscapes : List (Char × Char) :=
  [('"', '"'), ('\\', '\\'), ('/', '/'), ('b', '\x08'), ('f', '\x0c'), ('n', '\n'), ('r', '\r'),
    ('t', '\t')]

/-- A hexadecimal digit with a small or a capital letter. -/
def IsHexDigit (c : Char) (value : Nat) : Prop :=
  value < 16 ∧ (c = value.digitChar ∨ c = value.digitChar.toUpper)

/-- Four hexadecimal digits. -/
inductive IsUnit : Text → Nat → Prop where
  | digits {a b c d : Char} {p q r s : Nat} (first : IsHexDigit a p) (second : IsHexDigit b q)
      (third : IsHexDigit c r) (fourth : IsHexDigit d s) :
      IsUnit [a, b, c, d] (((p * 16 + q) * 16 + r) * 16 + s)

/-- What is written between the quotes of a string, and the text that it means. -/
inductive Spells : Text → Text → Prop where
  | nil : Spells [] []
  | plain {c : Char} {w t : Text} (plain : IsPlain c) (behind : Spells w t) :
      Spells (c :: w) (c :: t)
  | short {letter c : Char} {w t : Text} (escape : (letter, c) ∈ shortEscapes)
      (behind : Spells w t) : Spells ('\\' :: letter :: w) (c :: t)
  | unit {c : Char} {digits w t : Text} (unit : IsUnit digits c.toNat) (behind : Spells w t) :
      Spells ('\\' :: 'u' :: (digits ++ w)) (c :: t)
  /-- A character beyond the first 65536 in two halves. -/
  | halves {c : Char} {leading trailing w t : Text} (beyond : 0x10000 ≤ c.toNat)
      (first : IsUnit leading (0xd800 + (c.toNat - 0x10000) / 0x400))
      (second : IsUnit trailing (0xdc00 + (c.toNat - 0x10000) % 0x400)) (behind : Spells w t) :
      Spells ('\\' :: 'u' :: (leading ++ '\\' :: 'u' :: (trailing ++ w))) (c :: t)

/-- What stands between the quotes of a string, halves of characters included. -/
inductive IsContent : Text → Prop where
  | nil : IsContent []
  | plain {c : Char} {w : Text} (plain : IsPlain c) (behind : IsContent w) : IsContent (c :: w)
  | short {letter c : Char} {w : Text} (escape : (letter, c) ∈ shortEscapes)
      (behind : IsContent w) : IsContent ('\\' :: letter :: w)
  | unit {digits w : Text} {value : Nat} (unit : IsUnit digits value) (behind : IsContent w) :
      IsContent ('\\' :: 'u' :: (digits ++ w))

variable {paired : Bool} {c letter : Char} {w t u rest : Text} {value : Nat}

/-- A text of plain characters is written as it is. -/
theorem spells_self (plain : (t.all fun c => IsPlain c) = true) : Spells t t := by
  induction t with
  | nil => exact .nil
  | cons c t ih =>
    rw [List.all_cons, Bool.and_eq_true, decide_eq_true_eq] at plain
    exact .plain plain.1 (ih plain.2)

/-! ## Escapes -/

theorem hexDigit?_of_isHexDigit (digit : IsHexDigit c value) : hexDigit? c = some value := by
  obtain ⟨small, written⟩ := digit
  have both : ∀ n < 16, hexDigit? n.digitChar = some n ∧
      hexDigit? n.digitChar.toUpper = some n := by decide
  rcases written with rfl | rfl
  · exact (both value small).1
  · exact (both value small).2

theorem shortEscape?_of_mem (escape : (letter, c) ∈ shortEscapes) :
    shortEscape? letter = some c := by
  have all : (shortEscapes.all fun e => shortEscape? e.1 == some e.2) = true := by decide
  exact eq_of_beq (List.all_eq_true.1 all _ escape)

theorem length_le_byteCount (t : Text) : t.length ≤ byteCount t := by
  induction t with
  | nil => exact Nat.le_refl _
  | cons c t ih =>
    have size := c.utf8Size_pos
    show t.length + 1 ≤ c.utf8Size + byteCount t
    omega

theorem finds_hexUnit (unit : IsUnit t value) (rest : Text) :
    Finds (hexUnit (t ++ rest)) value rest := by
  cases unit with
  | @digits a b c d p q r s first second third fourth =>
    have enough : ¬byteCount (a :: b :: c :: d :: rest) < 4 := by
      have bytes := length_le_byteCount (a :: b :: c :: d :: rest)
      simp only [List.length_cons] at bytes
      omega
    refine ⟨by simp only [List.length_append, List.length_cons]; omega, ?_⟩
    show hexUnit (a :: b :: c :: d :: rest) = _
    rw [hexUnit, if_neg enough]
    simp only [hexDigit?_of_isHexDigit first, hexDigit?_of_isHexDigit second,
      hexDigit?_of_isHexDigit third, hexDigit?_of_isHexDigit fourth]

theorem finds_escaped_short (escape : (letter, c) ∈ shortEscapes) :
    Finds (escaped paired (letter :: t)) [c] t := by
  refine ⟨Nat.lt_succ_self _, ?_⟩
  rw [escaped, shortEscape?_of_mem escape]
  rfl

theorem finds_escaped_of_unit (found : Finds (escapedUnit paired t) u rest) :
    Finds (escaped paired ('u' :: t)) u rest := by
  obtain ⟨shorter, found⟩ := found
  refine ⟨Nat.lt_succ_of_lt shorter, ?_⟩
  have noShort : shortEscape? 'u' = none := by decide
  rw [escaped, noShort]
  simp only [found, if_true]
  rfl

/-- A character is no half of one. -/
theorem isHalf_toNat (c : Char) :
    isLeadingHalf c.toNat = false ∧ isTrailingHalf c.toNat = false := by
  have valid : c.toNat < 0xd800 ∨ 0xdfff < c.toNat ∧ c.toNat < 0x110000 := c.valid
  simp only [isLeadingHalf, isTrailingHalf, Bool.and_eq_false_iff, decide_eq_false_iff_not]
  omega

/-- The escape of a character. -/
theorem finds_escaped_char (unit : IsUnit t c.toNat) :
    Finds (escaped true ('u' :: (t ++ rest))) [c] rest := by
  obtain ⟨noLeading, noTrailing⟩ := isHalf_toNat c
  obtain ⟨shorter, found⟩ := finds_hexUnit unit rest
  refine finds_escaped_of_unit ⟨shorter, ?_⟩
  rw [escapedUnit, found]
  simp only [noLeading, noTrailing, Bool.and_false, Bool.false_eq_true, if_false,
    Char.ofNat_toNat]
  rfl

/-- The escapes of the two halves of a character. -/
theorem finds_escaped_halves (beyond : 0x10000 ≤ c.toNat)
    (first : IsUnit t (0xd800 + (c.toNat - 0x10000) / 0x400))
    (second : IsUnit u (0xdc00 + (c.toNat - 0x10000) % 0x400)) :
    Finds (escaped true ('u' :: (t ++ '\\' :: 'u' :: (u ++ rest)))) [c] rest := by
  have valid : c.toNat < 0xd800 ∨ 0xdfff < c.toNat ∧ c.toNat < 0x110000 := c.valid
  have joined : joinHalves (0xd800 + (c.toNat - 0x10000) / 0x400)
      (0xdc00 + (c.toNat - 0x10000) % 0x400) = c := by
    rw [joinHalves, Nat.add_sub_cancel_left, Nat.add_sub_cancel_left, Nat.add_assoc,
      Nat.div_add_mod', Nat.add_sub_cancel' beyond, Char.ofNat_toNat]
  obtain ⟨shorter, foundFirst⟩ := finds_hexUnit first ('\\' :: 'u' :: (u ++ rest))
  obtain ⟨shortest, foundSecond⟩ := finds_hexUnit second rest
  generalize highUnit : 0xd800 + (c.toNat - 0x10000) / 0x400 = high at *
  generalize lowUnit : 0xdc00 + (c.toNat - 0x10000) % 0x400 = low at *
  have isLeading : isLeadingHalf high = true ∧ isTrailingHalf high = false := by
    simp only [isLeadingHalf, isTrailingHalf, Bool.and_eq_true, Bool.and_eq_false_iff,
      decide_eq_true_eq, decide_eq_false_iff_not]
    omega
  have isTrailing : isTrailingHalf low = true := by
    simp only [isTrailingHalf, Bool.and_eq_true, decide_eq_true_eq]
    omega
  refine finds_escaped_of_unit ⟨by simp only [List.length_append, List.length_cons] at *; omega, ?_⟩
  rw [escapedUnit, foundFirst]
  simp only [isLeading, Bool.true_and, Bool.false_eq_true, if_false, if_true, trailingHalf,
    foundSecond, isTrailing, ← joined]
  rfl

/-- The escape of any four digits, where nobody asks for the text. -/
theorem finds_escaped_unread (unit : IsUnit t value) :
    Finds (escaped false ('u' :: (t ++ rest))) [Char.ofNat value] rest := by
  obtain ⟨shorter, found⟩ := finds_hexUnit unit rest
  refine finds_escaped_of_unit ⟨shorter, ?_⟩
  rw [escapedUnit, found]
  rfl

/-! ## Strings -/

theorem finds_readQuoted_end : Finds (readQuoted paired ('"' :: rest)) [] rest := by
  refine ⟨Nat.lt_succ_self _, ?_⟩
  rw [readQuoted, if_pos rfl]
  rfl

theorem finds_readQuoted_plain (plain : IsPlain c) (found : Finds (readQuoted paired u) t rest) :
    Finds (readQuoted paired (c :: u)) (c :: t) rest := by
  obtain ⟨noQuote, noBackslash, noControl⟩ := plain
  obtain ⟨shorter, found⟩ := found
  refine ⟨Nat.lt_succ_of_lt shorter, ?_⟩
  rw [readQuoted, if_neg noQuote, if_neg noBackslash, if_neg noControl, found]

theorem finds_readQuoted_escape {s v : Text} (head : Finds (escaped paired u) s v)
    (tail : Finds (readQuoted paired v) t rest) :
    Finds (readQuoted paired ('\\' :: u)) (s ++ t) rest := by
  obtain ⟨first, head⟩ := head
  obtain ⟨second, tail⟩ := tail
  refine ⟨by rw [List.length_cons]; omega, ?_⟩
  rw [readQuoted, if_neg (by decide), if_pos rfl, head]
  simp only [tail]

/-- A string is found with the text that it means. -/
theorem finds_readQuoted (spells : Spells w t) (rest : Text) :
    Finds (readQuoted true (w ++ '"' :: rest)) t rest := by
  induction spells with
  | nil => exact finds_readQuoted_end
  | plain plain _ ih => exact finds_readQuoted_plain plain ih
  | short escape _ ih => exact finds_readQuoted_escape (finds_escaped_short escape) ih
  | unit unit _ ih =>
    rw [List.cons_append, List.cons_append, List.append_assoc]
    exact finds_readQuoted_escape (finds_escaped_char unit) ih
  | halves beyond first second _ ih =>
    rw [List.cons_append, List.cons_append, List.append_assoc, List.cons_append, List.cons_append,
      List.append_assoc]
    exact finds_readQuoted_escape (finds_escaped_halves beyond first second) ih

/-- A string is found to its end, whatever it means. -/
theorem finds_readQuoted_unread (content : IsContent w) (rest : Text) :
    ∃ t, Finds (readQuoted false (w ++ '"' :: rest)) t rest := by
  induction content with
  | nil => exact ⟨_, finds_readQuoted_end⟩
  | plain plain _ ih =>
    obtain ⟨t, found⟩ := ih
    exact ⟨_, finds_readQuoted_plain plain found⟩
  | short escape _ ih =>
    obtain ⟨t, found⟩ := ih
    exact ⟨_, finds_readQuoted_escape (finds_escaped_short escape) found⟩
  | unit unit _ ih =>
    obtain ⟨t, found⟩ := ih
    rw [List.cons_append, List.cons_append, List.append_assoc]
    exact ⟨_, finds_readQuoted_escape (finds_escaped_unread unit) found⟩

end SheetFormula.Json
