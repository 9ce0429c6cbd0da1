import SheetFormula.Formula.Basic
import SheetFormula.Proofs.Text.Literals

/-!
# Bodies of formulas

The body of a formula stands between blanks, behind at most one equals sign
(`Formula.exists_frame`). So a formula has the literals of its body (`Text.Holds.body`), and
the body can be exchanged for another one.
-/

namespace SheetFormula

/-- Around a body stand neither quotes nor parentheses nor commas. -/
theorem Text.not_mem_frame {lead trail : Text} (leading : ∀ c ∈ lead, c = '=' ∨ isBlank c = true)
    (trailing : ∀ c ∈ trail, isBlank c = true) :
    (∀ c ∈ ['"', '(', ')', ','], c ∉ lead) ∧ ∀ c ∈ ['"', '(', ')', ','], c ∉ trail := by
  have kinds : ∀ c ∈ ['"', '(', ')', ','], ¬(c = '=' ∨ isBlank c = true) := by
    have all := List.all_eq_true.1 (by decide : ['"', '(', ')', ','].all fun c =>
      !(c == '=' || isBlank c))
    simpa using all
  exact ⟨fun c among met => kinds c among (leading c met),
    fun c among met => kinds c among (.inr (trailing c met))⟩

namespace Formula

/-- A text that neither begins nor ends in a blank, nor begins with an equals sign, is a body. -/
theorem body_ofText {t : Text} (noEquals : t.head? ≠ some '=')
    (head : ∀ c, t.head? = some c → Text.isBlank c = false)
    (last : ∀ c, t.getLast? = some c → Text.isBlank c = false) : (ofText t).body = t := by
  rw [ofText, Text.trim, trimEnds_eq_self head last]
  split
  · exact absurd rfl noEquals
  · rfl

theorem trim_body_ofText (t : Text) : Text.trim (ofText t).body = (ofText t).body := by
  unfold ofText
  split <;> exact trimEnds_trimEnds _

section Frame

variable {lead trail : Text} (leading : ∀ c ∈ lead, Text.isBlank c = true)
  (trailing : ∀ c ∈ trail, Text.isBlank c = true)

include leading trailing

/-- Between blanks, one equals sign is no part of the body. -/
theorem ofText_equals (s : Text) :
    ofText (lead ++ '=' :: s ++ trail) = ⟨true, Text.trim s⟩ := by
  have front : Text.trim ('=' :: s) = '=' :: dropEndWhile Text.isBlank s :=
    trimEnds_cons_of_not (by decide) s
  rw [ofText, Text.trim, trimEnds_append leading trailing, ← Text.trim, front]
  exact congrArg (Formula.mk true) (trimEnds_dropEndWhile s)

theorem ofText_plain {s : Text} (noEquals : (Text.trim s).head? ≠ some '=') :
    ofText (lead ++ s ++ trail) = ⟨false, Text.trim s⟩ := by
  rw [ofText, Text.trim, trimEnds_append leading trailing, ← Text.trim]
  split
  · next rest begins => exact absurd (congrArg List.head? begins) noEquals
  · rfl

end Frame

/-- A body may be exchanged between the blanks and the equals sign of a formula. -/
theorem exists_frame (t : Text) : ∃ lead trail,
    t = lead ++ (ofText t).body ++ trail ∧
      (∀ c ∈ lead, c = '=' ∨ Text.isBlank c = true) ∧ (∀ c ∈ trail, Text.isBlank c = true) ∧
      ∀ body, Text.trim body = body →
        (body.head? = some '=' → (ofText t).body.head? = some '=') →
        ofText (lead ++ body ++ trail) = ⟨(ofText t).hasEquals, body⟩ := by
  obtain ⟨lead, trail, whole, leading, trailing⟩ := trimEnds_split Text.isBlank t
  rw [← Text.trim] at whole
  by_cases equals : (Text.trim t).head? = some '='
  · obtain ⟨rest, equals⟩ := List.head?_eq_some_iff.1 equals
    obtain ⟨more, before, inner, moreLeading, beforeTrailing⟩ := trimEnds_split Text.isBlank rest
    have here : ofText t = ⟨true, Text.trim rest⟩ := by
      rw [whole, equals, ofText_equals leading trailing]
    refine ⟨lead ++ '=' :: more, before ++ trail, ?_, ?_, ?_, ?_⟩
    · rw [here]
      conv => lhs; rw [whole, equals, inner]
      simp [Text.trim]
    · intro c met
      rcases List.mem_append.1 met with met | met
      · exact .inr (leading c met)
      · exact (List.mem_cons.1 met).imp_right (moreLeading c)
    · exact List.forall_mem_append.2 ⟨beforeTrailing, trailing⟩
    · intro body trimmed _
      have text : lead ++ '=' :: more ++ body ++ (before ++ trail) =
          lead ++ '=' :: (more ++ body ++ before) ++ trail := by simp
      rw [text, ofText_equals leading trailing, here, Text.trim,
        trimEnds_append moreLeading beforeTrailing]
      exact congrArg (Formula.mk true) trimmed
  · have again : Text.trim (Text.trim t) = Text.trim t := trimEnds_trimEnds t
    have here : ofText t = ⟨false, Text.trim t⟩ := by
      conv => lhs; rw [whole]
      rw [ofText_plain leading trailing (by rwa [again]), again]
    refine ⟨lead, trail, by rw [here]; exact whole, fun c met => .inr (leading c met), trailing,
      fun body trimmed head => ?_⟩
    rw [here] at head ⊢
    rw [ofText_plain leading trailing (by rw [trimmed]; exact fun isFirst => equals (head isFirst)),
      trimmed]

/-- The pieces of a body are pieces of the formula. -/
theorem pieces_body_subset {t : Text} (closed : (ofText t).body.LiteralsClosed) :
    pieces (ofText t).body ⊆ pieces t := by
  obtain ⟨lead, trail, whole, leading, trailing, -⟩ := exists_frame t
  obtain ⟨leadOther, trailOther⟩ := Text.not_mem_frame leading trailing
  intro p met
  rw [whole, Text.pieces_frame closed (leadOther _ (by decide)) (trailOther _ (by decide))]
  exact List.mem_append_left _ (List.mem_append_right _ met)

end Formula

/-- The literals of a formula are those of its body. -/
theorem Text.Holds.body {t : Text} {ls : List Text} (holds : t.Holds ls) :
    (Formula.ofText t).body.Holds ls := by
  obtain ⟨lead, trail, whole, leading, trailing, -⟩ := Formula.exists_frame t
  obtain ⟨leadOther, trailOther⟩ := not_mem_frame leading trailing
  rw [whole] at holds
  exact holds.inner (leadOther _ (by decide)) (trailOther _ (by decide))

end SheetFormula
