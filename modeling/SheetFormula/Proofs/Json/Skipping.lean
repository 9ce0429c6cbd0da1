import SheetFormula.Json.Skipping
import SheetFormula.Proofs.Json.Quoted

/-!
# Values skipped

The grammar of values, with blanks around every value, key, comma and colon. A value is skipped to
its end, however deep its arrays and objects are nested (`IsValue.skips`).

## Main definitions

* `Json.IsValue`, `Json.IsElements`, `Json.IsMembers` — the grammar
* `Json.Skips` — texts that are skipped to their end
-/

namespace SheetFormula.Json

/-! ## The grammar -/

mutual

/-- The text of a value. -/
inductive IsValue : Text → Prop where
  | null : IsValue ['n', 'u', 'l', 'l']
  | yes : IsValue ['t', 'r', 'u', 'e']
  | no : IsValue ['f', 'a', 'l', 's', 'e']
  | number {n : Numeral} {t : Text} (numeral : IsNumeral n t) : IsValue t
  | negative {n : Numeral} {t : Text} (numeral : IsNumeral n t) : IsValue ('-' :: t)
  | string {w : Text} (content : IsContent w) : IsValue ('"' :: (w ++ ['"']))
  | emptyArray {b : Text} (blanks : Blanks b) : IsValue ('[' :: (b ++ [']']))
  | array {t : Text} (elements : IsElements t) : IsValue ('[' :: (t ++ [']']))
  | emptyObject {b : Text} (blanks : Blanks b) : IsValue ('\x7b' :: (b ++ ['\x7d']))
  | object {t : Text} (members : IsMembers t) : IsValue ('\x7b' :: (t ++ ['\x7d']))

/-- Values between blanks, one or more, with commas between them. -/
inductive IsElements : Text → Prop where
  | last {a v b : Text} (before : Blanks a) (value : IsValue v) (behind : Blanks b) :
      IsElements (a ++ (v ++ b))
  | more {a v b t : Text} (before : Blanks a) (value : IsValue v) (behind : Blanks b)
      (others : IsElements t) : IsElements (a ++ (v ++ (b ++ ',' :: t)))

/-- Keys with their values, one or more, with commas between them. -/
inductive IsMembers : Text → Prop where
  | last {a k b c v d : Text} (before : Blanks a) (key : IsContent k) (front : Blanks b)
      (middle : Blanks c) (value : IsValue v) (behind : Blanks d) :
      IsMembers (a ++ '"' :: (k ++ '"' :: (b ++ ':' :: (c ++ (v ++ d)))))
  | more {a k b c v d t : Text} (before : Blanks a) (key : IsContent k) (front : Blanks b)
      (middle : Blanks c) (value : IsValue v) (behind : Blanks d) (others : IsMembers t) :
      IsMembers (a ++ '"' :: (k ++ '"' :: (b ++ ':' :: (c ++ (v ++ (d ++ ',' :: t))))))

end

variable {a b c k t u v rest : Text}

/-! ## Values by themselves -/

/-- The text begins with no blank, closes no array, and is skipped wherever it may end. -/
inductive Skips : Text → Prop where
  | from {c : Char} {t : Text} (visible : isBlank c = false) (noEnd : c ≠ ']')
      (skips : ∀ {rest}, Ends rest → Finds (skipFrom c (t ++ rest)) () rest) : Skips (c :: t)

theorem Skips.finds_skipValue (skips : Skips v) (before : Blanks a) (ends : Ends rest) :
    Finds (skipValue (a ++ (v ++ rest))) () rest := by
  obtain @⟨c, t, visible, -, found⟩ := skips
  obtain ⟨shorter, next⟩ := next?_blanks (t := t ++ rest) before visible
  obtain ⟨shortest, skipped⟩ := found ends
  refine ⟨Nat.lt_of_lt_of_le shortest shorter, ?_⟩
  show skipValue (a ++ c :: (t ++ rest)) = _
  rw [skipValue, next]
  simp only [skipped]
  rfl

theorem finds_skipWord (word : Text) (c : Char) (rest : Text) :
    Finds (skipWord word c (word ++ rest)) () rest := by
  obtain ⟨le, found⟩ := expectWord_append word rest
  refine ⟨Nat.lt_succ_of_le le, ?_⟩
  rw [skipWord, found]
  rfl

theorem skips_null : Skips ['n', 'u', 'l', 'l'] := by
  refine .from (by decide) (by decide) fun {rest} _ => ?_
  rw [skipFrom]
  exact finds_skipWord ['u', 'l', 'l'] 'n' rest

theorem skips_yes : Skips ['t', 'r', 'u', 'e'] := by
  refine .from (by decide) (by decide) fun {rest} _ => ?_
  rw [skipFrom]
  exact finds_skipWord ['r', 'u', 'e'] 't' rest

theorem skips_no : Skips ['f', 'a', 'l', 's', 'e'] := by
  refine .from (by decide) (by decide) fun {rest} _ => ?_
  rw [skipFrom]
  exact finds_skipWord ['a', 'l', 's', 'e'] 'f' rest

theorem skips_numeral {n : Numeral} (numeral : IsNumeral n t) : Skips t := by
  obtain ⟨c, u, rfl, digit⟩ := numeral.exists_digit
  have other : ∀ d : Char, d.isDigit = false → c ≠ d := by
    rintro d noDigit rfl
    rw [digit] at noDigit
    cases noDigit
  refine .from (by simp [isBlank, other]) (other _ (by decide)) fun {rest} ends => ?_
  obtain ⟨shorter, scanned⟩ := finds_scanNumeral .malformed numeral ends
  change scanNumeral .malformed (c :: (u ++ rest)) = _ at scanned
  refine ⟨shorter, ?_⟩
  rw [skipFrom]
  simp only [other '[', other '\x7b', other '"', other 'n', other 't', other 'f', other '-', digit,
    Char.reduceIsDigit, if_false, Bool.or_true, if_true, skipNumber, scanned]
  rfl

theorem skips_negative {n : Numeral} (numeral : IsNumeral n t) : Skips ('-' :: t) := by
  refine .from (by decide) (by decide) fun {rest} ends => ?_
  obtain ⟨shorter, scanned⟩ := finds_scanNumeral .malformed numeral ends
  refine ⟨Nat.lt_succ_of_lt shorter, ?_⟩
  rw [skipFrom]
  simp only [Char.reduceEq, if_false, if_true, skipNumber, scanned]
  rfl

theorem skips_string (content : IsContent t) : Skips ('"' :: (t ++ ['"'])) := by
  refine .from (by decide) (by decide) fun {rest} _ => ?_
  obtain ⟨text, shorter, found⟩ := finds_readQuoted_unread content rest
  rw [List.append_assoc, List.singleton_append]
  refine ⟨Nat.lt_succ_of_lt shorter, ?_⟩
  rw [skipFrom]
  simp only [Char.reduceEq, if_false, if_true, found]
  rfl

/-! ## Arrays -/

/-- What stands in an array behind its beginning or a comma: a value, and the others up to the
end. -/
inductive LeavesArray (rest : Text) : Text → Prop where
  | value {a v u : Text} (before : Blanks a) (skips : Skips v) (ends : Ends u)
      (others : Finds (skipElements false u) () rest) : LeavesArray rest (a ++ (v ++ u))

theorem finds_skipElements_end {first : Bool} (blanks : Blanks b) :
    Finds (skipElements first (b ++ ']' :: rest)) () rest := by
  obtain ⟨shorter, next⟩ := next?_blanks (t := rest) blanks (c := ']') (by decide)
  refine ⟨shorter, ?_⟩
  rw [skipElements, next]
  exact if_pos rfl

theorem LeavesArray.first (leaves : LeavesArray rest t) :
    Finds (skipElements true t) () rest := by
  obtain @⟨a, _, u, before, @⟨c, t, visible, noEnd, found⟩, ends, shortest, others⟩ := leaves
  obtain ⟨below, next⟩ := next?_blanks (t := t ++ u) before visible
  obtain ⟨shorter, skipped⟩ := found ends
  refine ⟨Nat.lt_trans shortest (Nat.lt_of_lt_of_le shorter below), ?_⟩
  show skipElements true (a ++ c :: (t ++ u)) = _
  rw [skipElements, next]
  simp only [if_neg noEnd, if_true, skipped, others]
  rfl

theorem LeavesArray.behind (leaves : LeavesArray rest t) (blanks : Blanks b) :
    Finds (skipElements false (b ++ ',' :: t)) () rest := by
  obtain ⟨before, skips, ends, shortest, others⟩ := leaves
  obtain ⟨shorter, skipped⟩ := skips.finds_skipValue before ends
  obtain ⟨below, next⟩ := next?_blanks blanks (c := ',') (by decide)
  refine ⟨Nat.lt_trans shortest (Nat.lt_trans shorter below), ?_⟩
  rw [skipElements, next]
  simp only [Char.reduceEq, if_false, Bool.false_eq_true, if_true, skipped, others]
  rfl

/-! ## Objects -/

/-- What stands in an object behind its beginning or a comma: a member, and the others up to the
end. -/
inductive LeavesObject (rest : Text) : Text → Prop where
  | member {a m u : Text} (before : Blanks a) (member : Finds (skipMember m) () u)
      (others : Finds (skipMembers false u) () rest) : LeavesObject rest (a ++ '"' :: m)

theorem finds_skipMember (key : IsContent k) (front : Blanks b) (middle : Blanks c)
    (value : Skips v) (ends : Ends u) :
    Finds (skipMember (k ++ '"' :: (b ++ ':' :: (c ++ (v ++ u))))) () u := by
  obtain ⟨text, longest, quoted⟩ :=
    finds_readQuoted_unread key (b ++ ':' :: (c ++ (v ++ u)))
  obtain ⟨below, colon⟩ :=
    finds_expectChar (t := c ++ (v ++ u)) front (c := ':') (by decide)
  obtain ⟨shorter, skipped⟩ := value.finds_skipValue middle ends
  refine ⟨Nat.lt_trans shorter (Nat.lt_trans below longest), ?_⟩
  rw [skipMember, quoted]
  simp only [colon, skipped]
  rfl

theorem finds_skipMembers_end {first : Bool} (blanks : Blanks b) :
    Finds (skipMembers first (b ++ '\x7d' :: rest)) () rest := by
  obtain ⟨shorter, next⟩ := next?_blanks (t := rest) blanks (c := '\x7d') (by decide)
  refine ⟨shorter, ?_⟩
  rw [skipMembers, next]
  exact if_pos rfl

theorem LeavesObject.first (leaves : LeavesObject rest t) :
    Finds (skipMembers true t) () rest := by
  obtain @⟨a, m, u, before, ⟨shorter, member⟩, shortest, others⟩ := leaves
  obtain ⟨below, next⟩ := next?_blanks (t := m) before (c := '"') (by decide)
  refine ⟨Nat.lt_trans shortest (Nat.lt_trans shorter below), ?_⟩
  rw [skipMembers, next]
  simp only [Char.reduceEq, if_false, if_true, member, others]
  rfl

theorem LeavesObject.behind (leaves : LeavesObject rest t) (blanks : Blanks b) :
    Finds (skipMembers false (b ++ ',' :: t)) () rest := by
  obtain @⟨a, m, u, before, ⟨shorter, member⟩, shortest, others⟩ := leaves
  obtain ⟨below, next⟩ := next?_blanks (t := a ++ '"' :: m) blanks (c := ',') (by decide)
  obtain ⟨within, quote⟩ := finds_expectChar (t := m) before (c := '"') (by decide)
  refine ⟨Nat.lt_trans shortest (Nat.lt_trans shorter (Nat.lt_trans within below)), ?_⟩
  rw [skipMembers, next]
  simp only [Char.reduceEq, if_false, Bool.false_eq_true, if_true, quote, member, others]
  rfl

/-! ## All values -/

theorem skips_brackets (found : ∀ rest, Finds (skipElements true (t ++ ']' :: rest)) () rest) :
    Skips ('[' :: (t ++ [']'])) := by
  refine .from (by decide) (by decide) fun {rest} _ => ?_
  obtain ⟨shorter, skipped⟩ := found rest
  rw [List.append_assoc, List.singleton_append]
  refine ⟨Nat.lt_succ_of_lt shorter, ?_⟩
  rw [skipFrom, if_pos rfl, skipped]
  rfl

theorem skips_braces (found : ∀ rest, Finds (skipMembers true (t ++ '\x7d' :: rest)) () rest) :
    Skips ('\x7b' :: (t ++ ['\x7d'])) := by
  refine .from (by decide) (by decide) fun {rest} _ => ?_
  obtain ⟨shorter, skipped⟩ := found rest
  rw [List.append_assoc, List.singleton_append]
  refine ⟨Nat.lt_succ_of_lt shorter, ?_⟩
  rw [skipFrom, if_neg (by decide), if_pos rfl, skipped]
  rfl

mutual

/-- Every value is skipped to its end. -/
theorem IsValue.skips {v : Text} : IsValue v → Skips v
  | .null => skips_null
  | .yes => skips_yes
  | .no => skips_no
  | .number numeral => skips_numeral numeral
  | .negative numeral => skips_negative numeral
  | .string content => skips_string content
  | .emptyArray blanks => skips_brackets fun _ => finds_skipElements_end blanks
  | .array elements => skips_brackets fun rest => (elements.leaves rest).first
  | .emptyObject blanks => skips_braces fun _ => finds_skipMembers_end blanks
  | .object members => skips_braces fun rest => (members.leaves rest).first

theorem IsElements.leaves {t : Text} :
    IsElements t → ∀ rest, LeavesArray rest (t ++ ']' :: rest)
  | .last before value behind, rest => by
    rw [List.append_assoc, List.append_assoc]
    exact .value before value.skips (ends_blanks behind (.inr (.inl rfl)))
      (finds_skipElements_end behind)
  | .more before value behind others, rest => by
    rw [List.append_assoc, List.append_assoc, List.append_assoc]
    exact .value before value.skips (ends_blanks behind (.inl rfl))
      ((others.leaves rest).behind behind)

theorem IsMembers.leaves {t : Text} :
    IsMembers t → ∀ rest, LeavesObject rest (t ++ '\x7d' :: rest)
  | @IsMembers.last a k b c v d before key front middle value behind, rest => by
    have member := finds_skipMember key front middle value.skips
      (ends_blanks (t := rest) behind (.inr (.inr rfl)))
    have leaves := LeavesObject.member before member (finds_skipMembers_end behind)
    simpa only [List.append_assoc, List.cons_append] using leaves
  | @IsMembers.more a k b c v d t before key front middle value behind others, rest => by
    have member := finds_skipMember key front middle value.skips
      (ends_blanks (t := t ++ '\x7d' :: rest) behind (.inl rfl))
    have leaves := LeavesObject.member before member
      ((others.leaves rest).behind behind)
    simpa only [List.append_assoc, List.cons_append] using leaves

end

end SheetFormula.Json
