import SheetFormula.Formula.Operator
import SheetFormula.Text.Identifier
import SheetFormula.Text.Indentation
import SheetFormula.Text.Uppercase

/-!
# Kinds of characters

How the classes of characters lie apart: blanks, connectors, quotes and name characters. Most
operators are found by their first character (`Operator.atStart?_eq_none_iff`).
-/

namespace SheetFormula

/-- What holds of all ranges of a table holds of the code points that it covers. -/
theorem CodeTable.forall_covers {table : CodeTable} {P : Nat → Prop}
    (ranges : ∀ range ∈ table, ∀ k < range.2 + 1 - range.1, P (range.1 + k)) {code : Nat}
    (covered : table.covers code = true) : P code := by
  induction table with
  | nil => cases covered
  | cons range table ih =>
    obtain ⟨first, last⟩ := range
    rw [covers] at covered
    split at covered
    · cases covered
    · split at covered
      · have here := ranges (first, last) List.mem_cons_self (code - first) (by simp only; omega)
        have : first + (code - first) = code := by omega
        rwa [this] at here
      · exact ih (fun range met => ranges range (List.mem_cons_of_mem _ met)) covered

namespace Text

variable {c : Char}

theorem isBlank_induction {P : Char → Prop}
    (ranges : ∀ range ∈ blankTable, ∀ k < range.2 + 1 - range.1, P (.ofNat (range.1 + k)))
    (blank : isBlank c = true) : P c := by
  have holds : P (.ofNat c.toNat) :=
    CodeTable.forall_covers (P := fun code => P (.ofNat code)) ranges blank
  rwa [Char.ofNat_toNat] at holds

theorem isConnector_iff : isConnector c = true ↔ c = '├' ∨ c = '└' ∨ c = '─' ∨ c = '│' := by
  simp [isConnector, or_assoc]

theorem ne_quote_of_isBlank (blank : isBlank c = true) : c ≠ '"' := by
  rintro rfl
  revert blank
  decide

theorem isConnector_of_isBlank (blank : isBlank c = true) : isConnector c = false :=
  isBlank_induction (P := fun c => isConnector c = false) (by decide) blank

theorem isNameChar_of_isBlank (blank : isBlank c = true) : isNameChar c = false :=
  isBlank_induction (P := fun c => isNameChar c = false) (by decide +kernel) blank

theorem ne_quote_of_isConnector (connector : isConnector c = true) : c ≠ '"' := by
  rintro rfl
  revert connector
  decide

theorem ne_closing_of_isConnector (connector : isConnector c = true) : c ≠ ')' := by
  rintro rfl
  cases connector

theorem isNameChar_of_isConnector (connector : isConnector c = true) : isNameChar c = false := by
  rcases isConnector_iff.1 connector with rfl | rfl | rfl | rfl <;> decide +kernel

/-- Name characters are neither layout nor marks of literals and argument lists. -/
theorem isNameChar_spelling (isName : isNameChar c = true) :
    c ≠ '"' ∧ c ≠ ';' ∧ isConnector c = false ∧ isBlank c = false := by
  refine ⟨?_, ?_, ?_, ?_⟩
  · rintro rfl
    revert isName
    decide +kernel
  · rintro rfl
    revert isName
    decide +kernel
  · rw [← Bool.not_eq_true]
    intro connector
    rw [isNameChar_of_isConnector connector] at isName
    cases isName
  · rw [← Bool.not_eq_true]
    intro blank
    rw [isNameChar_of_isBlank blank] at isName
    cases isName

end Text

/-! ## Operators -/

namespace Operator

theorem lexeme_ne_nil (op : Operator) : op.lexeme ≠ [] := by
  cases op <;> decide

theorem width_eq (op : Operator) : op.width = 1 ∨ op.width = 2 := by
  cases op <;> decide

/-- The characters of operators are neither layout nor marks of literals and lists. -/
theorem lexeme_spelling {op : Operator} {c : Char} (met : c ∈ op.lexeme) :
    (c ≠ '"' ∧ c ≠ '(' ∧ c ≠ ')' ∧ c ≠ ';') ∧
      Text.isConnector c = false ∧ Text.isBlank c = false ∧ Text.capital c = [c] := by
  have all : op.lexeme.all (fun c => (c != '"' && c != '(' && c != ')' && c != ';') &&
      !Text.isConnector c && !Text.isBlank c && Text.capital c == [c]) = true := by
    cases op <;> decide
  simpa [and_assoc] using List.all_eq_true.1 all c met

variable {c : Char} {t : Text}

/-- Most operators begin with a character that is one too. -/
theorem exists_lexeme_eq (starts : c ∈ ['<', '>', '=', '+', '-', '*', '/', '&']) :
    ∃ op : Operator, op.lexeme = [c] := by
  simp only [List.mem_cons, List.not_mem_nil, or_false] at starts
  rcases starts with rfl | rfl | rfl | rfl | rfl | rfl | rfl | rfl
  · exact ⟨.less, rfl⟩
  · exact ⟨.greater, rfl⟩
  · exact ⟨.equal, rfl⟩
  · exact ⟨.plus, rfl⟩
  · exact ⟨.minus, rfl⟩
  · exact ⟨.times, rfl⟩
  · exact ⟨.divide, rfl⟩
  · exact ⟨.concatenate, rfl⟩

/-- No operator begins where the character is none itself, and no exclamation mark in front of an
equals sign. -/
theorem atStart?_eq_none_iff : atStart? (c :: t) = none ↔
    (∀ op : Operator, op.lexeme ≠ [c]) ∧ (c = '!' → t.head? ≠ some '=') := by
  have every : ∀ op : Operator, op ∈ all := fun op => by cases op <;> decide
  rw [atStart?, List.find?_eq_none]
  constructor
  · intro none
    refine ⟨fun op single => none op (every op) ?_, ?_⟩
    · rw [single]
      exact List.isPrefixOf_iff_prefix.2 ⟨t, rfl⟩
    · rintro rfl first
      obtain ⟨rest, rfl⟩ := List.head?_eq_some_iff.1 first
      exact none .bangEqual (every _) (List.isPrefixOf_iff_prefix.2 ⟨rest, rfl⟩)
  · rintro ⟨single, apart⟩ op - begins
    obtain ⟨rest, whole⟩ := List.isPrefixOf_iff_prefix.1 begins
    have first : ∀ d more, op.lexeme = d :: more → c = d := by
      intro d more same
      rw [same] at whole
      exact (List.cons.inj whole).1.symm
    cases op with
    | power => exact single .power (by rw [first _ _ rfl]; rfl)
    | range => exact single .range (by rw [first _ _ rfl]; rfl)
    | bangEqual =>
      refine apart (first _ _ rfl) ?_
      rw [← (List.cons.inj whole).2]
      rfl
    | _ =>
      obtain ⟨other, same⟩ := exists_lexeme_eq (c := c) (by rw [first _ _ rfl]; decide)
      exact single other same

/-- An operator is found where nothing behind it makes it a longer one. -/
theorem atStart?_lexeme (op : Operator)
    (ends : op ∈ [less, greater, equal] → ∀ d, t.head? = some d → d ≠ '=' ∧ d ≠ '>') :
    atStart? (op.lexeme ++ t) = some op := by
  cases op with
  | less | greater | equal =>
    cases t with
    | nil => rfl
    | cons d t =>
      obtain ⟨noEqual, noGreater⟩ := ends (by simp) d rfl
      simp [atStart?, all, lexeme, List.isPrefixOf, noEqual.symm, noGreater.symm]
  | _ => simp [atStart?, all, lexeme, List.isPrefixOf]

end Operator

end SheetFormula
