import SheetFormula.Proofs.Reading.Faults

/-!
# The marks inside a parenthesis

One pass over all marks of a text, with the positions of open parentheses on a stack, tells which
marks stand directly inside a parenthesis. The separators among them count the parts into which the
readers cut the argument list behind that parenthesis (`argumentCount_directlyInside`).

## Main definitions

* `Mark.directlyInside` — the marks whose innermost open parenthesis is a given one
* `Mark.argumentCount` — the number of arguments that such marks make up
-/

namespace SheetFormula.Mark

/-- The marks whose innermost open parenthesis is the one at `position`, without the `)` that closes
it. The parentheses in front of the marks are open at the positions `opened`. -/
def directlyInside (position : Nat) (opened : List Nat) : List Mark → List Mark
  | [] => []
  | m :: ms =>
    if opened.head? = some position ∧ m.char? ≠ some ')' then
      m :: directlyInside position (stackBehind opened m) ms
    else directlyInside position (stackBehind opened m) ms

/-- The number of arguments that the separators among the marks stand between. Layout alone is no
argument. -/
def argumentCount (separator : Separator) (ms : List Mark) : Nat :=
  if ms.all isLayout then 0 else ms.countP (·.char? = some separator.char) + 1

variable {position : Nat} {opened outer : List Nat} {m : Mark} {ms ns : List Mark}

theorem directlyInside_append : directlyInside position opened (ms ++ ns) =
    directlyInside position opened ms ++ directlyInside position (leftOpen opened ms) ns := by
  induction ms generalizing opened with
  | nil => rfl
  | cons m ms ih =>
    rw [List.cons_append, directlyInside, directlyInside, ih, leftOpen_cons]
    split
    · rw [List.cons_append]
    · rfl

theorem directlyInside_subset : directlyInside position opened ms ⊆ ms := by
  induction ms generalizing opened with
  | nil => exact List.Subset.refl _
  | cons m ms ih =>
    rw [directlyInside]
    split
    · exact List.cons_subset_cons m ih
    · exact List.subset_cons_of_subset m ih

/-! ## Other parentheses -/

theorem mem_stackBehind {n : Nat} (met : n ∈ stackBehind opened m) :
    n ∈ opened ∨ n = m.position := by
  unfold stackBehind at met
  split at met
  · exact (List.mem_cons.1 met).symm
  · split at met
    · exact .inl (List.mem_of_mem_tail met)
    · exact .inl met

theorem mem_leftOpen {n : Nat} (met : n ∈ leftOpen opened ms) :
    n ∈ opened ∨ ∃ m ∈ ms, n = m.position := by
  induction ms generalizing opened with
  | nil => exact .inl met
  | cons m ms ih =>
    rcases ih met with before | ⟨other, within, same⟩
    · rcases mem_stackBehind before with before | same
      · exact .inl before
      · exact .inr ⟨m, List.mem_cons_self, same⟩
    · exact .inr ⟨other, List.mem_cons_of_mem _ within, same⟩

/-- Where the parenthesis is not open and opens no more, nothing is inside it. -/
theorem directlyInside_eq_nil (notOpen : position ∉ opened)
    (others : ∀ m ∈ ms, m.position ≠ position) : directlyInside position opened ms = [] := by
  induction ms generalizing opened with
  | nil => rfl
  | cons m ms ih =>
    have notHead : ¬(opened.head? = some position ∧ m.char? ≠ some ')') :=
      fun inside => notOpen (List.mem_of_head? inside.1)
    rw [directlyInside, if_neg notHead]
    refine ih (fun met => ?_) fun other within => others other (List.mem_cons_of_mem _ within)
    rcases mem_stackBehind met with before | same
    · exact notOpen before
    · exact others m List.mem_cons_self same.symm

/-- All that stands directly inside a parenthesis stands between it and its partner. -/
theorem directlyInside_opening {front inside tail : List Mark} {opening closing : Mark}
    (increasing : (front ++ opening :: (inside ++ closing :: tail)).Pairwise
      fun m n => m.position < n.position)
    (isOpening : opening.char? = some '(') (isClosing : closing.char? = some ')')
    (enclosed : Enclosed 0 inside) (balanced : openAfter 0 inside = 0) :
    directlyInside opening.position [] (front ++ opening :: (inside ++ closing :: tail)) =
      directlyInside opening.position (opening.position :: leftOpen [] front) inside := by
  obtain ⟨-, later, before⟩ := List.pairwise_append.1 increasing
  have behind := (List.pairwise_cons.1 later).1
  have frontOthers : ∀ m ∈ front, m.position ≠ opening.position := fun m met =>
    Nat.ne_of_lt (before m met opening List.mem_cons_self)
  have tailOthers : ∀ m ∈ tail, m.position ≠ opening.position := fun m met =>
    (Nat.ne_of_lt (behind m (by simp [met]))).symm
  have notOpen : opening.position ∉ leftOpen [] front := by
    intro met
    rcases mem_leftOpen met with none | ⟨m, met, same⟩
    · cases none
    · exact frontOthers m met same.symm
  have notHead : ¬((leftOpen [] front).head? = some opening.position ∧ opening.char? ≠ some ')') :=
    fun inside => notOpen (List.mem_of_head? inside.1)
  have opened : stackBehind (leftOpen [] front) opening =
      opening.position :: leftOpen [] front := by
    rw [stackBehind, if_pos isOpening]
  have same : leftOpen (opening.position :: leftOpen [] front) inside =
      opening.position :: leftOpen [] front := by
    have below : leftOpen ([] ++ (opening.position :: leftOpen [] front)) inside =
        leftOpen [] inside ++ _ := leftOpen_outer _ enclosed
    rwa [leftOpen_eq_nil balanced] at below
  have closed : stackBehind (opening.position :: leftOpen [] front) closing =
      leftOpen [] front := by
    rw [stackBehind, isClosing, if_neg (by decide), if_pos rfl, List.tail_cons]
  rw [directlyInside_append, directlyInside_eq_nil List.not_mem_nil frontOthers, List.nil_append,
    directlyInside, if_neg notHead, opened, directlyInside_append, same, directlyInside,
    if_neg (by simp [isClosing]), closed, directlyInside_eq_nil notOpen tailOthers,
    List.append_nil]

/-! ## Arguments -/

variable {separator : Separator}

/-- Every separator directly inside a parenthesis ends a part of its argument list. The positions
`inner` are those of the nested parentheses that are open in front of the marks. -/
theorem length_snd_cutAtSeparators (inner : List Nat) (enclosed : Enclosed inner.length ms)
    (others : ∀ m ∈ ms, m.position ≠ position) (notInner : position ∉ inner) :
    (cutAtSeparators separator inner.length ms).2.length =
      (directlyInside position (inner ++ position :: outer) ms).countP
        (·.char? = some separator.char) := by
  induction ms generalizing inner with
  | nil => rfl
  | cons m ms ih =>
    obtain ⟨first, rest⟩ := enclosed_cons.1 enclosed
    have later : (cutAtSeparators separator (m.depthAfter inner.length) ms).2.length =
        (directlyInside position (stackBehind inner m ++ position :: outer) ms).countP
          (·.char? = some separator.char) := by
      rw [← length_stackBehind] at rest ⊢
      refine ih (stackBehind inner m) rest
        (fun other met => others other (List.mem_cons_of_mem _ met)) fun met => ?_
      rcases mem_stackBehind met with before | same
      · exact notInner before
      · exact others m List.mem_cons_self same.symm
    rw [cutAtSeparators, directlyInside, stackBehind_outer _ first]
    split
    · next separates =>
      obtain ⟨outermost, isSeparator⟩ := separates
      rw [depthAfter_separator isSeparator, outermost] at later
      have direct : (inner ++ position :: outer).head? = some position ∧
          m.char? ≠ some ')' := by
        rw [List.eq_nil_of_length_eq_zero outermost, isSeparator]
        exact ⟨rfl, by cases separator <;> decide⟩
      rw [if_pos direct, List.countP_cons_of_pos (by simpa using isSeparator), ← later]
      rfl
    · next joins =>
      have nothing : ∀ ns : List Mark, (if (inner ++ position :: outer).head? = some position ∧
          m.char? ≠ some ')' then m :: ns else ns).countP (·.char? = some separator.char) =
            ns.countP (·.char? = some separator.char) := by
        intro ns
        split
        · next direct =>
          -- the mark stands in no nested parenthesis, so it is no separator
          have outermost : inner.length = 0 := by
            cases inner with
            | nil => rfl
            | cons n inner =>
              have same : n = position := Option.some.inj direct.1
              exact absurd (same ▸ List.mem_cons_self) notInner
          have noSeparator : m.char? ≠ some separator.char :=
            fun isSeparator => joins ⟨outermost, isSeparator⟩
          exact List.countP_cons_of_neg (by simpa using noSeparator)
        · rfl
      rw [nothing, ← later]
      rfl

/-- If all that stands directly inside a parenthesis is layout, nothing else stands inside it. -/
theorem all_isLayout_directlyInside (genuine : AllGenuine ms) (enclosed : Enclosed 0 ms) :
    (directlyInside position (position :: outer) ms).all isLayout = ms.all isLayout := by
  rw [Bool.eq_iff_iff, List.all_eq_true, List.all_eq_true]
  refine ⟨fun layout => ?_, fun layout m met => layout m (directlyInside_subset met)⟩
  induction ms with
  | nil => exact fun m met => absurd met List.not_mem_nil
  | cons m ms ih =>
    obtain ⟨first, rest⟩ := enclosed_cons.1 enclosed
    have direct : (position :: outer).head? = some position ∧ m.char? ≠ some ')' :=
      ⟨rfl, fun closing => first ⟨rfl, closing⟩⟩
    rw [directlyInside, if_pos direct] at layout
    have isLayout := layout m List.mem_cons_self
    have same : stackBehind (position :: outer) m = position :: outer :=
      stackBehind_other (genuine.head.char?_ne_of_layout isLayout (by decide) (by decide)) direct.2
    rw [depthAfter_layout genuine.head isLayout] at rest
    rw [same] at layout
    refine List.forall_mem_cons.2 ⟨isLayout, ih genuine.tail rest fun other met => ?_⟩
    exact layout other (List.mem_cons_of_mem _ met)

/-- The marks directly inside a parenthesis count the arguments behind it. -/
theorem argumentCount_directlyInside (genuine : AllGenuine ms) (enclosed : Enclosed 0 ms)
    (others : ∀ m ∈ ms, m.position ≠ position) :
    argumentCount separator (directlyInside position (position :: outer) ms) =
      (argumentParts separator ms).length := by
  have count : (cutAtSeparators separator 0 ms).2.length =
      (directlyInside position (position :: outer) ms).countP (·.char? = some separator.char) :=
    length_snd_cutAtSeparators [] enclosed others List.not_mem_nil
  rw [argumentCount, all_isLayout_directlyInside genuine enclosed, ← count, argumentParts]
  by_cases undivided : Undivided separator 0 ms
  · rw [undivided.cutAtSeparators_eq]
    show (if ms.all isLayout then 0 else 1) = (if ms.all isLayout then [] else [ms]).length
    split <;> rfl
  · have visible : ¬ms.all isLayout = true := by
      rw [List.all_eq_true]
      intro layout
      -- otherwise the separator would be layout
      have none : (directlyInside position (position :: outer) ms).countP
          (·.char? = some separator.char) = 0 := by
        rw [List.countP_eq_zero]
        intro m met
        have within := directlyInside_subset met
        have := (genuine m within).char?_ne_of_layout (layout m within)
          (d := separator.char) (by cases separator <;> decide) (by cases separator <;> decide)
        simpa using this
      rw [none, List.length_eq_zero_iff] at count
      exact undivided count
    rw [if_neg visible]
    obtain ⟨first, others, more⟩ := List.exists_cons_of_ne_nil undivided
    rw [← Prod.eta (cutAtSeparators separator 0 ms), more]
    rfl

end SheetFormula.Mark
