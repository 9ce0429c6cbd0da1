import SheetFormula.Formula.FunctionName
import SheetFormula.Text.Identifier
import SheetFormula.Text.Indentation

/-!
# Known names

How the names of the catalogue are spelled: in capital letters, digits and dots, all of which are
name characters and their own capitals.
-/

namespace SheetFormula.FunctionName

/-- Whether a code point is that of a dot, a digit or a capital letter. -/
def spells (code : Nat) : Bool :=
  code.beq 46 || (Nat.ble 48 code && Nat.ble code 57) || (Nat.ble 65 code && Nat.ble code 90)

theorem spells_of_mem_known {name : Text} (isKnown : name ∈ known) :
    name ≠ [] ∧ ∀ c ∈ name, spells c.toNat = true := by
  have all : known.all (fun name => !name.isEmpty && name.all fun c => spells c.toNat) = true := by
    decide +kernel
  simpa using List.all_eq_true.1 all name isKnown

theorem spelling {c : Char} (spelled : spells c.toNat = true) :
    Text.capital c = [c] ∧ Text.isNameChar c = true ∧ c ≠ ';' ∧ c ≠ '"' ∧
      Text.isConnector c = false ∧ Text.isBlank c = false := by
  have all : ∀ code < 91, spells code = true →
      Text.capital (.ofNat code) = [.ofNat code] ∧ Text.isNameChar (.ofNat code) = true ∧
        Char.ofNat code ≠ ';' ∧ Char.ofNat code ≠ '"' ∧
        Text.isConnector (.ofNat code) = false ∧ Text.isBlank (.ofNat code) = false := by
    decide +kernel
  have bound : c.toNat < 91 := by
    simp only [spells, Bool.or_eq_true, Bool.and_eq_true, Nat.ble_eq, Nat.beq_eq] at spelled
    omega
  have this := all c.toNat bound spelled
  rwa [Char.ofNat_toNat] at this

/-- Known names are written in capitals. -/
theorem uppercase_of_mem_known {name : Text} (isKnown : name ∈ known) :
    Text.uppercase name = name := by
  have letters := (spells_of_mem_known isKnown).2
  clear isKnown
  induction name with
  | nil => rfl
  | cons c name ih =>
    have first := (spelling (letters c List.mem_cons_self)).1
    rw [Text.uppercase, List.flatMap_cons, first, ← Text.uppercase,
      ih fun d met => letters d (List.mem_cons_of_mem _ met)]
    rfl

theorem canonical?_eq_some {name capitals : Text} :
    canonical? name = some capitals ↔ capitals ∈ known ∧ Text.uppercase name = capitals := by
  unfold canonical?
  split
  · next isKnown =>
    rw [Option.some_inj]
    exact ⟨fun same => ⟨by rw [← same]; simpa using isKnown, same⟩, And.right⟩
  · next unknown =>
    refine ⟨by rintro ⟨⟩, ?_⟩
    rintro ⟨isKnown, rfl⟩
    exact absurd (by simpa using isKnown) unknown

/-- No function has the empty name. -/
theorem canonical?_nil : canonical? [] = none := by
  cases named : canonical? [] with
  | none => rfl
  | some name =>
    obtain ⟨isKnown, rfl⟩ := canonical?_eq_some.1 named
    exact absurd rfl (spells_of_mem_known isKnown).1

end SheetFormula.FunctionName
