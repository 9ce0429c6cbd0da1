import SheetFormula.Proofs.Text.Essence

/-!
# Capital forms

A few characters tell a formula apart from its layout: the equals sign in front, the quotes and the
connectors. No capital form brings one of them in (`eq_of_mem_essential`), so they are found in the
essence of a text where the text has them.

## Main definitions

* `Text.reservedCodes`, `Text.isReserved` — the characters that only their own capital form holds
-/

namespace SheetFormula.Text

/-! ## The tables -/

theorem CaseTable.exists_run_of_capital? {table : CaseTable} {code result : Nat}
    (found : table.capital? code = some result) :
    ∃ run ∈ table, run.upper ≤ result ∧ result ≤ run.upper + (run.last - run.first) := by
  induction table with
  | nil => cases found
  | cons run table ih =>
    rw [CaseTable.capital?] at found
    split at found
    · cases found
    · split at found
      · next within =>
        cases found
        exact ⟨run, List.mem_cons_self, Nat.le_add_right _ _, by omega⟩
      · obtain ⟨other, met, bounds⟩ := ih found
        exact ⟨other, List.mem_cons_of_mem _ met, bounds⟩

theorem ExpansionTable.mem_of_capitals? {table : ExpansionTable} {code : Nat} {codes : List Nat}
    (found : table.capitals? code = some codes) : ∃ entry ∈ table, entry.2 = codes := by
  induction table with
  | nil => cases found
  | cons entry table ih =>
    obtain ⟨letter, capitals⟩ := entry
    rw [ExpansionTable.capitals?] at found
    split at found
    · cases found
    · split at found
      · cases found
        exact ⟨_, List.mem_cons_self, rfl⟩
      · obtain ⟨other, met, same⟩ := ih found
        exact ⟨other, List.mem_cons_of_mem _ met, same⟩

/-- A code that is no character at all gives the null character. -/
theorem eq_toNat_of_ofNat {code : Nat} {c : Char} (same : Char.ofNat code = c)
    (visible : c ≠ Char.ofNat 0) : code = c.toNat := by
  by_cases valid : code.isValidChar
  · rw [Char.ofNat, dif_pos valid] at same
    exact congrArg Char.toNat same
  · rw [Char.ofNat, dif_neg valid] at same
    exact absurd same.symm visible

/-! ## Reserved characters -/

/-- The codes of the equals sign, the quote and the connectors. -/
def reservedCodes : List Nat :=
  [0x3d, 0x22, 0x251c, 0x2514, 0x2500, 0x2502]

/-- A character that only its own capital form holds. -/
def isReserved (c : Char) : Bool :=
  reservedCodes.contains c.toNat

theorem isReserved_of_isConnector {c : Char} (connector : isConnector c = true) :
    isReserved c = true := by
  rcases isConnector_iff.1 connector with rfl | rfl | rfl | rfl <;> rfl

/-- The tables lead to no reserved character. -/
theorem not_mem_reservedCodes {c : Char} {code : Nat}
    (found : caseRuns.capital? c.toNat = some code ∨
      ∃ codes, caseExpansions.capitals? c.toNat = some codes ∧ code ∈ codes) :
    code ∉ reservedCodes := by
  have runs : ∀ run ∈ caseRuns, ∀ code ∈ reservedCodes,
      code < run.upper ∨ run.upper + (run.last - run.first) < code := by decide +kernel
  have expansions : ∀ entry ∈ caseExpansions, ∀ code ∈ reservedCodes, code ∉ entry.2 := by
    decide +kernel
  intro reserved
  rcases found with found | ⟨codes, found, isCode⟩
  · obtain ⟨run, within, lower, upper⟩ := CaseTable.exists_run_of_capital? found
    have apart := runs run within code reserved
    omega
  · obtain ⟨entry, within, rfl⟩ := ExpansionTable.mem_of_capitals? found
    exact expansions entry within code reserved isCode

theorem eq_of_mem_capital {c d : Char} (reserved : isReserved d = true) (met : d ∈ capital c) :
    c = d := by
  have listed : d.toNat ∈ reservedCodes := List.contains_iff_mem.1 reserved
  have visible : d ≠ Char.ofNat 0 := by
    rintro rfl
    revert reserved
    decide
  unfold capital at met
  split at met
  · next code found =>
    have same := eq_toNat_of_ofNat (List.mem_singleton.1 met).symm visible
    exact absurd (same ▸ listed) (not_mem_reservedCodes (.inl found))
  · split at met
    · next codes found =>
      obtain ⟨code, isCode, same⟩ := List.mem_map.1 met
      have same := eq_toNat_of_ofNat same visible
      exact absurd (same ▸ listed) (not_mem_reservedCodes (.inr ⟨codes, found, isCode⟩))
    · exact (List.mem_singleton.1 met).symm

theorem eq_of_mem_essential {c d : Char} (reserved : isReserved d = true) (met : d ∈ essential c) :
    c = d := by
  unfold essential at met
  split at met
  · rw [List.mem_singleton.1 met] at reserved
    cases reserved
  · exact eq_of_mem_capital reserved met

theorem essential_ne_nil (c : Char) : essential c ≠ [] := by
  unfold essential
  split
  · exact List.cons_ne_nil _ _
  · unfold capital
    split
    · exact List.cons_ne_nil _ _
    · split
      · next codes found =>
        obtain ⟨entry, met, rfl⟩ := ExpansionTable.mem_of_capitals? found
        have some : ∀ entry ∈ caseExpansions, entry.2 ≠ [] := by decide +kernel
        exact List.map_eq_nil_iff.not.2 (some entry met)
      · exact List.cons_ne_nil _ _

/-- Only the equals sign has a capital form that begins with one. -/
theorem essential_eq_cons (c : Char) :
    ∃ first rest, essential c = first :: rest ∧ (first = '=' → c = '=') := by
  obtain ⟨first, rest, whole⟩ := List.exists_cons_of_ne_nil (essential_ne_nil c)
  refine ⟨first, rest, whole, ?_⟩
  rintro rfl
  exact eq_of_mem_essential rfl (whole ▸ List.mem_cons_self)

/-- A connector is its own capital form. -/
theorem essential_of_isConnector {c : Char} (connector : isConnector c = true) :
    essential c = [c] := by
  rcases isConnector_iff.1 connector with rfl | rfl | rfl | rfl <;> decide +kernel

end SheetFormula.Text
