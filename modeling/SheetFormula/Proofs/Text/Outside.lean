import SheetFormula.Proofs.Text.Essence

/-!
# Characters outside literals

Which characters a text has outside its literals is told from left to right, so it is told of a text
that is put together or cut anywhere (`avoids_append`), and it agrees with the pieces of the text
(`Avoids.pieces`).

## Main definitions

* `Text.Avoids` — no character of a class outside literals
-/

namespace SheetFormula.Text

/-- No character outside literals belongs to the class. -/
def Avoids (p : Char → Bool) (quoted : Bool) : Text → Prop
  | [] => True
  | c :: t => (quoted = false → p c = false) ∧ Avoids p (quotedBehind quoted c) t

variable {p : Char → Bool} {quoted : Bool} {s t : Text}

theorem avoids_append :
    Avoids p quoted (s ++ t) ↔ Avoids p quoted s ∧ Avoids p (quotedAfter quoted s) t := by
  induction s generalizing quoted with
  | nil => exact (true_and _).symm.to_iff
  | cons c s ih => rw [List.cons_append, Avoids, Avoids, ih, and_assoc, quotedAfter_cons]

/-- The rest of a literal has nothing outside, the quotes apart. -/
theorem avoids_literalTail (noQuote : p '"' = false) (t : Text) :
    Avoids p true (literalTail t).text := by
  fun_induction literalTail t with
  | case1 => trivial
  | case2 t ih => exact ⟨by simp, fun _ => noQuote, ih⟩
  | case3 => exact ⟨by simp, trivial⟩
  | case4 c t other ih =>
    refine ⟨by simp, ?_⟩
    rw [quotedBehind_other other]
    exact ih

/-- No piece belongs to a class that the text avoids. -/
theorem Avoids.pieces (avoids : Avoids p false t) :
    ∀ q ∈ SheetFormula.pieces t, q.satisfies p = false := by
  fun_induction SheetFormula.pieces t with
  | case1 => exact fun q met => absurd met List.not_mem_nil
  | case2 t ih =>
    have behind : Avoids p true ((literalTail t).text ++ (literalTail t).rest) := by
      rw [literalTail_whole]
      exact avoids.2
    rw [avoids_append, (essenceFrom_literalTail t false).2] at behind
    refine List.forall_mem_cons.2 ⟨rfl, ?_⟩
    cases closed : (literalTail t).closed with
    | true =>
      rw [closed] at behind
      exact ih behind.2
    | false =>
      rw [rest_literalTail_of_unclosed closed, SheetFormula.pieces]
      exact fun q met => absurd met List.not_mem_nil
  | case3 c t noQuote ih =>
    rw [Avoids, quotedBehind_other noQuote] at avoids
    exact List.forall_mem_cons.2 ⟨avoids.1 rfl, ih avoids.2⟩

/-- Without the blanks around it, a text has the same characters outside literals. -/
theorem Avoids.trim (avoids : Avoids p false t) : Avoids p false (trim t) := by
  obtain ⟨lead, trail, whole, leading, -⟩ := trimEnds_split isBlank t
  have side : quotedAfter false lead = false :=
    quotedAfter_eq fun c met => ne_quote_of_isBlank (leading c met)
  rw [whole, avoids_append, avoids_append, side] at avoids
  exact avoids.1.2

/-! ## Layout at the end -/

theorem length_layoutFlags (indented : Bool) (t : Text) :
    (layoutFlags indented t).length = t.length := by
  induction t generalizing indented with
  | nil => rfl
  | cons c t ih => rw [layoutFlags, List.length_cons, ih, List.length_cons]

theorem layoutFlags_append (indented : Bool) (s t : Text) :
    layoutFlags indented (s ++ t) =
      layoutFlags indented s ++ layoutFlags (indentedAfter indented s) t := by
  induction s generalizing indented with
  | nil => rfl
  | cons c s ih => rw [List.cons_append, layoutFlags, ih, layoutFlags, List.cons_append]; rfl

theorem isBlank_or_isConnector_of_layoutFlags {indented : Bool}
    (layout : ∀ flag ∈ layoutFlags indented t, flag = true) :
    ∀ c ∈ t, isBlank c = true ∨ isConnector c = true := by
  induction t generalizing indented with
  | nil => exact fun c met => absurd met List.not_mem_nil
  | cons c t ih =>
    obtain ⟨first, behind⟩ := List.forall_mem_cons.1 layout
    rw [isLayout, Bool.or_eq_true, Bool.and_eq_true] at first
    exact List.forall_mem_cons.2 ⟨first.imp_right And.right, ih behind⟩

/-- What is trimmed off the end of a text are blanks and connectors, and no blank is left there. -/
theorem trimLayoutEnd_split (t : Text) : ∃ trail, t = trimLayoutEnd t ++ trail ∧
    (∀ c ∈ trail, isBlank c = true ∨ isConnector c = true) ∧
    ∀ c, (trimLayoutEnd t).getLast? = some c → isBlank c = false := by
  have whole := dropEndWhile_append_takeEndWhile id (layoutFlags false t)
  have size : (dropEndWhile id (layoutFlags false t)).length ≤ t.length :=
    length_layoutFlags false t ▸ length_dropEndWhile_le id (layoutFlags false t)
  unfold trimLayoutEnd
  generalize count : (dropEndWhile id (layoutFlags false t)).length = n at size
  have cut : layoutFlags false t = layoutFlags false (t.take n) ++
      layoutFlags (indentedAfter false (t.take n)) (t.drop n) := by
    rw [← layoutFlags_append, List.take_append_drop]
  -- the flags are cut where the text is cut
  obtain ⟨front, behind⟩ := List.append_inj (whole.trans cut) (by
    rw [length_layoutFlags, List.length_take, min_eq_left size, count])
  refine ⟨t.drop n, (List.take_append_drop n t).symm,
    isBlank_or_isConnector_of_layoutFlags (behind ▸ all_takeEndWhile _), fun c last => ?_⟩
  obtain ⟨init, kept⟩ := List.getLast?_eq_some_iff.1 last
  have flag : (dropEndWhile id (layoutFlags false t)).getLast? =
      some (isLayout (indentedAfter false init) c) := by
    rw [front, kept, layoutFlags_append]
    exact List.getLast?_concat
  have noLayout : isLayout (indentedAfter false init) c = false :=
    getLast?_dropEndWhile (p := id) flag
  rw [isLayout, Bool.or_eq_false_iff] at noLayout
  exact noLayout.1

end SheetFormula.Text
