import SheetFormula.Text.Basic
import Mathlib.Data.List.DropRight
import Mathlib.Data.List.TakeWhile

/-!
# The two ends of a list

What the cuts at the ends of a list leave and take away. Trimming takes matching elements only
(`trimEnds_split`), and changes nothing where no end matches (`trimEnds_eq_self`).
-/

namespace SheetFormula

variable {α : Type} {p : α → Bool}

@[simp] theorem dropEndWhile_nil : dropEndWhile p [] = [] := rfl

@[simp] theorem takeEndWhile_nil : takeEndWhile p [] = [] := rfl

/-- Behind a mismatch, nothing further in front is looked at. -/
theorem takeEndWhile_append_of_not {x : α} (mismatch : p x = false) (xs ys : List α) :
    takeEndWhile p (xs ++ x :: ys) = takeEndWhile p ys := by
  rw [takeEndWhile, takeEndWhile, List.reverse_append, List.reverse_cons, List.append_assoc,
    List.takeWhile_append]
  split
  · next all =>
    rw [List.singleton_append, List.takeWhile_cons_of_neg (by simp [mismatch]), List.append_nil,
      (List.takeWhile_prefix p).eq_of_length all]
  · rfl

/-- A matching end is kept whole. -/
theorem takeEndWhile_append_of_all {ys : List α} (all : ∀ y ∈ ys, p y = true) (xs : List α) :
    takeEndWhile p (xs ++ ys) = takeEndWhile p xs ++ ys := by
  have matching : ∀ y ∈ ys.reverse, p y = true := fun y met => all y (List.mem_reverse.1 met)
  rw [takeEndWhile, takeEndWhile, List.reverse_append, List.takeWhile_append_of_pos matching,
    List.reverse_append, List.reverse_reverse]

theorem takeEndWhile_eq_self {xs : List α} (all : ∀ x ∈ xs, p x = true) : takeEndWhile p xs = xs :=
  takeEndWhile_append_of_all all []

/-- Behind a mismatch only, something is cut off. -/
theorem dropEndWhile_append_of_not {x : α} (mismatch : p x = false) (xs ys : List α) :
    dropEndWhile p (xs ++ x :: ys) = xs ++ x :: dropEndWhile p ys := by
  have whole := dropEndWhile_append_takeEndWhile p (xs ++ x :: ys)
  rw [takeEndWhile_append_of_not mismatch] at whole
  refine List.append_cancel_right (whole.trans ?_)
  rw [List.append_assoc, List.cons_append, dropEndWhile_append_takeEndWhile]

theorem dropEndWhile_cons_of_not {x : α} (mismatch : p x = false) (xs : List α) :
    dropEndWhile p (x :: xs) = x :: dropEndWhile p xs :=
  dropEndWhile_append_of_not mismatch [] xs

theorem dropEndWhile_eq_nil {xs : List α} (all : ∀ x ∈ xs, p x = true) :
    dropEndWhile p xs = [] := by
  rw [dropEndWhile, List.dropWhile_eq_nil_iff.2 fun x met => all x (List.mem_reverse.1 met),
    List.reverse_nil]

theorem trimEnds_cons_of_not {x : α} (mismatch : p x = false) (xs : List α) :
    trimEnds p (x :: xs) = x :: dropEndWhile p xs := by
  rw [trimEnds, List.dropWhile_cons_of_neg (by simp [mismatch]), dropEndWhile_cons_of_not mismatch]

/-- A list that ends in a mismatch keeps its end. -/
theorem dropEndWhile_concat_of_not {x : α} (mismatch : p x = false) (xs : List α) :
    dropEndWhile p (xs ++ [x]) = xs ++ [x] := by
  simp [dropEndWhile, mismatch]

theorem takeEndWhile_concat_of_not {x : α} (mismatch : p x = false) (xs : List α) :
    takeEndWhile p (xs ++ [x]) = [] :=
  takeEndWhile_append_of_not mismatch xs []

/-- The kept end matches. -/
theorem all_takeEndWhile (xs : List α) : ∀ x ∈ takeEndWhile p xs, p x = true := by
  intro x met
  rw [takeEndWhile, List.mem_reverse] at met
  exact List.mem_takeWhile_imp met

/-- What the final run leaves ends in a mismatch. -/
theorem getLast?_dropEndWhile {xs : List α} {x : α}
    (last : (dropEndWhile p xs).getLast? = some x) : p x = false := by
  rw [dropEndWhile, List.getLast?_reverse] at last
  have mismatch := List.head?_dropWhile_not p xs.reverse
  rw [last] at mismatch
  simpa using mismatch

/-- A matching end is the longest one if nothing in front goes on with it. -/
theorem takeEndWhile_eq_iff {xs ys : List α} :
    takeEndWhile p xs = ys ↔ ∃ front, xs = front ++ ys ∧ (∀ y ∈ ys, p y = true) ∧
      ∀ x, front.getLast? = some x → p x = false := by
  constructor
  · rintro rfl
    exact ⟨dropEndWhile p xs, (dropEndWhile_append_takeEndWhile p xs).symm, all_takeEndWhile xs,
      fun x last => getLast?_dropEndWhile last⟩
  · rintro ⟨front, rfl, all, before⟩
    rcases List.eq_nil_or_concat front with rfl | ⟨front, x, rfl⟩
    · exact takeEndWhile_eq_self all
    · rw [List.concat_eq_append] at before ⊢
      rw [takeEndWhile_append_of_all all,
        takeEndWhile_concat_of_not (before x List.getLast?_concat), List.nil_append]

/-- Trimming takes matching elements away at both ends. -/
theorem trimEnds_split (p : α → Bool) (xs : List α) :
    ∃ lead trail, xs = lead ++ trimEnds p xs ++ trail ∧
      (∀ x ∈ lead, p x = true) ∧ ∀ x ∈ trail, p x = true := by
  refine ⟨xs.takeWhile p, takeEndWhile p (xs.dropWhile p), ?_, ?_, all_takeEndWhile _⟩
  · rw [trimEnds, List.append_assoc, dropEndWhile_append_takeEndWhile,
      List.takeWhile_append_dropWhile]
  · intro x met
    exact List.mem_takeWhile_imp met

/-- Matching elements at the ends make no difference. -/
theorem trimEnds_append {lead trail : List α} (leading : ∀ x ∈ lead, p x = true)
    (trailing : ∀ x ∈ trail, p x = true) (xs : List α) :
    trimEnds p (lead ++ xs ++ trail) = trimEnds p xs := by
  have drops : ∀ ys : List α, dropEndWhile p (ys ++ trail) = dropEndWhile p ys := by
    intro ys
    rw [dropEndWhile, dropEndWhile, List.reverse_append,
      List.dropWhile_append_of_pos fun x met => trailing x (List.mem_reverse.1 met)]
  rw [trimEnds, trimEnds, List.append_assoc, List.dropWhile_append_of_pos leading,
    List.dropWhile_append]
  split
  · next none =>
    rw [List.isEmpty_iff.1 none, List.dropWhile_eq_nil_iff.2 trailing]
  · exact drops _

@[simp] theorem trimEnds_dropEndWhile (xs : List α) :
    trimEnds p (dropEndWhile p xs) = trimEnds p xs := by
  have same : trimEnds p ([] ++ dropEndWhile p xs ++ takeEndWhile p xs) =
      trimEnds p (dropEndWhile p xs) :=
    trimEnds_append (fun x met => absurd met List.not_mem_nil) (all_takeEndWhile xs) _
  rw [List.nil_append, dropEndWhile_append_takeEndWhile] at same
  exact same.symm

/-- A list whose ends do not match is not trimmed. -/
theorem trimEnds_eq_self {xs : List α} (head : ∀ x, xs.head? = some x → p x = false)
    (last : ∀ x, xs.getLast? = some x → p x = false) : trimEnds p xs = xs := by
  cases xs with
  | nil => rfl
  | cons x xs =>
    have start : (x :: xs).dropWhile p = x :: xs := by
      rw [List.dropWhile_cons_of_neg (by simp [head x rfl])]
    rw [trimEnds, start]
    obtain ⟨front, y, whole⟩ := List.eq_nil_or_concat (x :: xs) |>.resolve_left (by simp)
    rw [List.concat_eq_append] at whole
    rw [whole] at last ⊢
    exact dropEndWhile_concat_of_not (last y (by simp)) front

theorem head?_trimEnds {xs : List α} {x : α} (head : (trimEnds p xs).head? = some x) :
    p x = false := by
  have whole := dropEndWhile_append_takeEndWhile p (xs.dropWhile p)
  have start : (xs.dropWhile p).head? = some x := by
    rw [← whole, List.head?_append]
    rw [trimEnds] at head
    rw [head]
    rfl
  have mismatch := List.head?_dropWhile_not p xs
  rw [start] at mismatch
  simpa using mismatch

theorem getLast?_trimEnds {xs : List α} {x : α} (last : (trimEnds p xs).getLast? = some x) :
    p x = false :=
  getLast?_dropEndWhile last

@[simp] theorem trimEnds_trimEnds (xs : List α) :
    trimEnds p (trimEnds p xs) = trimEnds p xs :=
  trimEnds_eq_self (fun _ => head?_trimEnds) (fun _ => getLast?_trimEnds)

end SheetFormula
