import SheetFormula.Proofs.Reading.Rows

/-!
# The nodes of a tree

What holds of the leaves of parts in a row holds of all leaves below them (`Row.sound`). So what the
readers keep of the pending token and the marks behind it tells something of all leaves of a tree
(`Mark.TokenInvariant`, `Formula.sound_children`). That calls have known names needs no such
property, and holds of every formula (`Formula.sound_tree`).

## Main definitions

* `Expression.Sound` — a property of leaves, with known names for calls
* `Mark.TokenInvariant` — what the readers have to keep for it
-/

namespace SheetFormula

namespace Expression

/-- A leaf has the property, and a call has a known name. -/
def Sound (P : Text → Prop) : Expression → Prop
  | plain source [] => P source
  | call name _ _ => name ∈ FunctionName.known
  | _ => True

theorem nodesOfEach_append (es fs : List Expression) :
    nodesOfEach (es ++ fs) = nodesOfEach es ++ nodesOfEach fs := by
  induction es with
  | nil => rw [nodesOfEach, List.nil_append, List.nil_append]
  | cons e es ih => rw [List.cons_append, nodesOfEach, ih, nodesOfEach, List.append_assoc]

theorem mem_nodesOfEach {n : Expression} {es : List Expression} :
    n ∈ nodesOfEach es ↔ ∃ e ∈ es, n ∈ nodes e := by
  induction es with
  | nil => simp [nodesOfEach]
  | cons e es ih => rw [nodesOfEach, List.mem_append, ih, List.exists_mem_cons_iff]

theorem nodes_leaf (t : Text) : nodes (leaf t) = [leaf t] := by
  rw [leaf, nodes, nodesOfEach]

variable {P : Text → Prop}

theorem sound_leaf {t : Text} (holds : P t) : ∀ n ∈ nodes (leaf t), n.Sound P := by
  rw [nodes_leaf]
  intro n met
  rw [List.mem_singleton.1 met]
  exact holds

mutual

/-- All nodes of a part in a row are sound, if the property holds of an argument that is nothing. -/
theorem InRow.sound {e n : Expression} (part : InRow P e) (nothing : P [])
    (isNode : n ∈ nodes e) : n.Sound P := by
  cases part with
  | leaf holds _ => exact sound_leaf holds n isNode
  | group row =>
    rw [nodes, List.mem_cons] at isNode
    rcases isNode with rfl | isNode
    · trivial
    · exact row.sound nothing isNode
  | @call name source arguments known each =>
    rw [nodes, List.mem_cons] at isNode
    rcases isNode with rfl | isNode
    · exact known
    · obtain ⟨a, isArgument, isNode⟩ := mem_nodesOfEach.1 isNode
      exact (each a isArgument).sound nothing isNode
  | operator op =>
    rw [nodes, List.mem_singleton] at isNode
    exact isNode ▸ trivial

theorem Row.sound {es : List Expression} {n : Expression} (row : Row P es) (nothing : P [])
    (isNode : n ∈ nodesOfEach es) : n.Sound P := by
  cases row with
  | nil =>
    rw [nodesOfEach] at isNode
    cases isNode
  | cons part _ behind =>
    rw [nodesOfEach, List.mem_append] at isNode
    rcases isNode with isNode | isNode
    · exact part.sound nothing isNode
    · exact behind.sound nothing isNode

theorem IsArgument.sound {e n : Expression} (argument : IsArgument P e) (nothing : P [])
    (isNode : n ∈ nodes e) : n.Sound P := by
  cases argument with
  | nothing => exact sound_leaf nothing n isNode
  | single part => exact part.sound nothing isNode
  | @several source parts two row =>
    rw [nodes, List.mem_cons] at isNode
    rcases isNode with rfl | isNode
    · obtain ⟨first, others, rfl⟩ :=
        List.exists_cons_of_length_pos (Nat.lt_of_lt_of_le Nat.two_pos two)
      trivial
    · exact row.sound nothing isNode

end

end Expression

open Expression

namespace Mark

/-- A property of the pending token and the marks behind it that holds at every step of the readers,
and gives all leaves a property. -/
structure TokenInvariant (K : Text → List Mark → Prop) (P : Text → Prop) : Prop where
  literal : ∀ {pending mark rest text closed}, K pending (mark :: rest) →
    mark.piece = .literal text closed → K (pending ++ text) rest
  connector : ∀ {pending mark rest c}, K pending (mark :: rest) → mark.piece = .char c →
    mark.isLayout = true → Text.isConnector c = true → K (pending ++ [' ']) rest
  char : ∀ {pending mark rest c}, K pending (mark :: rest) → mark.piece = .char c →
    ¬(mark.isLayout && Text.isConnector c) = true → K (pending ++ [c]) rest
  /-- A new token can begin anywhere. -/
  fresh : ∀ {pending ms ns}, K pending ms → ns <:+: ms → K [] ns
  trimmed : ∀ {pending ms}, K pending ms → K [] (trimmed ms)
  /-- What stands before a function name is a token by itself. -/
  name : ∀ {pending ms name}, K pending ms →
    FunctionName.canonical? (Text.cutBeforeName pending).2 = some name →
    K (Text.cutBeforeName pending).1 []
  token : ∀ {pending ms}, K pending ms → P (Text.trim pending)
  argument : ∀ {pending ms}, K pending ms → P (sourceText (Mark.trimmed ms))

variable {K : Text → List Mark → Prop} {P : Text → Prop} {separator : Separator} {ms : List Mark}

/-- The property of leaves aside, the readers keep what they have to for parts in a row. -/
theorem TokenInvariant.rowInvariant (invariant : TokenInvariant K P) : RowInvariant K P where
  literal := invariant.literal
  connector := invariant.connector
  char holds isChar _ noConnector _ := invariant.char holds isChar noConnector
  fresh := invariant.fresh
  trimmed := invariant.trimmed
  name := invariant.name
  token := invariant.token

/-- All leaves that the readers make have the property, and all calls have known names. -/
theorem TokenInvariant.sound_read (invariant : TokenInvariant K P) (afterOperand : Bool)
    (pending : Text) (readable : Readable ms) (holds : K pending ms) :
    ∀ n ∈ nodesOfEach (read separator afterOperand pending ms).value, n.Sound P :=
  have nothing : P [] := invariant.token (invariant.fresh holds List.nil_infix)
  fun _ => (invariant.rowInvariant.row_read afterOperand pending readable holds).sound nothing

/-- The text from a `)` without a partner on, as a leaf. -/
def strayLeaf : List Mark → List Expression
  | [] => []
  | stray :: tail => [.leaf (sourceText (trimmed (stray :: tail)))]

/-- A text that is cut at a `)` begins with it. -/
theorem head?_trimmed {stray : Mark} {tail : List Mark} (genuine : stray.Genuine)
    (isClosing : stray.char? = some ')') :
    (sourceText (trimmed (stray :: tail))).head? = some ')' := by
  have noLayout : stray.isLayout = false := by
    by_contra layout
    rw [Bool.not_eq_false] at layout
    exact genuine.char?_ne_of_layout layout (by decide) (by decide) isClosing
  have same : stray.trimUnclosed = stray := by
    rw [trimUnclosed, piece_of_char? isClosing]
  rw [trimmed, trimEnds_cons_of_not noLayout, List.map_cons, same, sourceText,
    List.map_cons, piece_of_char? isClosing]
  rfl

end Mark

namespace Formula

open Mark

variable (f : Formula)

/-- The tree has the parts in front of the first `)` without a partner, and the text from there on
as a last leaf. -/
theorem tree_parts : f.tree = .plain f.body
    ((read f.separator false [] (cutAtClose 0 (marks f.body)).1).value ++
      strayLeaf (cutAtClose 0 (marks f.body)).2) := by
  rw [tree_eq, transcript, readBody, Transcript.value_bind, Transcript.value_pure, readWhole,
    Transcript.value_bind]
  cases (cutAtClose 0 (marks f.body)).2 with
  | nil => rw [strayLeaf, List.append_nil]; rfl
  | cons stray tail => rfl

/-- What is read from a formula is sound if the invariant holds at its beginning. -/
theorem sound_children {K : Text → List Mark → Prop} {P : Text → Prop}
    (invariant : TokenInvariant K P) (holds : K [] (marks f.body)) :
    ∀ n ∈ nodesOfEach f.tree.children, n.Sound P := by
  have whole := cutAtClose_whole 0 (marks f.body)
  have front : (cutAtClose 0 (marks f.body)).1 <:+: marks f.body := ⟨[], _, whole⟩
  have behind : (cutAtClose 0 (marks f.body)).2 <:+: marks f.body := ⟨_, [], by simpa using whole⟩
  rw [tree_parts, children, nodesOfEach_append]
  refine List.forall_mem_append.2 ⟨?_, ?_⟩
  · exact invariant.sound_read false [] (readable_fst_cutAtClose (allGenuine_marks f.body))
      (invariant.fresh holds front)
  · cases cut : (cutAtClose 0 (marks f.body)).2 with
    | nil => simp [strayLeaf, nodesOfEach]
    | cons stray tail =>
      rw [cut] at behind
      rw [strayLeaf, nodesOfEach, nodesOfEach, List.append_nil]
      exact sound_leaf (invariant.argument (invariant.fresh holds behind))

/-- Without any property of leaves there is nothing to keep. -/
theorem tokenInvariant_true : TokenInvariant (fun _ _ => True) fun _ => True := by
  constructor <;> intros <;> trivial

/-- All calls of a tree have known names. -/
theorem sound_tree : ∀ n ∈ f.tree.nodes, n.Sound fun _ => True := by
  have sound := f.sound_children tokenInvariant_true trivial
  rw [tree_parts] at sound ⊢
  rw [nodes]
  -- the root is no call, so only its parts matter
  refine List.forall_mem_cons.2 ⟨?_, sound⟩
  unfold Sound
  split <;> trivial

end Formula

end SheetFormula
