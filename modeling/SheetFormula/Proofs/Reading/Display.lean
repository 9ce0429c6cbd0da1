import SheetFormula.Proofs.Reading.Essence

/-!
# Displayed trees

A tree on one line has the essence of the formula that it was read from, with a `)` for every
parenthesis that the formula leaves open (`essence_display_tree`), also where connectors stand in
the formula. A leaf can hold ordinary connectors and line breaks; but it never ends in an
indentation, so it makes no connector of the next leaf layout, and none of its own connectors was
layout where it was read.

## Main definitions

* `Text.Shows` — a settled text and its essence
-/

namespace SheetFormula

namespace Text

/-- A text that leaves nothing behind for the next one, and its essence. -/
structure Shows (t r : Text) : Prop where
  settled : t.Settled
  essence : t.essence = r

variable {t r : Text}

theorem shows_nil : Shows [] [] :=
  ⟨settled_nil, essence_nil⟩

theorem Shows.append {s p : Text} (left : Shows s p) (right : Shows t r) :
    Shows (s ++ t) (p ++ r) := by
  refine ⟨left.settled.append right.settled, ?_⟩
  rw [left.settled.essence_append, left.essence, right.essence]

/-- Outside of an indentation only a line break can begin one. -/
theorem settled_of_forall (noQuote : ∀ c ∈ t, c ≠ '"') (noBlank : ∀ c ∈ t, isBlank c = false) :
    Settled t := by
  refine ⟨quotedAfter_eq noQuote, ?_⟩
  clear noQuote
  induction t with
  | nil => rfl
  | cons c t ih =>
    have inside : staysIndented false c = false :=
      staysIndented_eq_false (noBlank c List.mem_cons_self) fun none => Bool.noConfusion none
    rw [indentedAfter_cons, inside]
    exact ih fun d met => noBlank d (List.mem_cons_of_mem _ met)

theorem shows_lexeme (op : Operator) : Shows op.lexeme op.lexeme := by
  have spelling : ∀ c ∈ op.lexeme, _ := fun c met => Operator.lexeme_spelling met
  refine ⟨settled_of_forall (fun c met => (spelling c met).1.1)
    fun c met => (spelling c met).2.2.1, ?_⟩
  rw [essence_eq]
  cases op <;> decide

theorem shows_name {name : Text} (isKnown : name ∈ FunctionName.known) : Shows name name := by
  have spelling : ∀ c ∈ name, _ := fun c met =>
    FunctionName.spelling ((FunctionName.spells_of_mem_known isKnown).2 c met)
  refine ⟨settled_of_forall (fun c met => (spelling c met).2.2.2.1)
    fun c met => (spelling c met).2.2.2.2.2, ?_⟩
  rw [(essence_name fun c met => (spelling c met).2.1).2,
    FunctionName.uppercase_of_mem_known isKnown]

/-- The characters that a display puts between and around the parts. -/
theorem shows_bracket {c : Char} (isBracket : c ∈ ['(', ',', ')']) : Shows [c] [c] := by
  have kinds : c = '(' ∨ c = ',' ∨ c = ')' := by simpa using isBracket
  rcases kinds with rfl | rfl | rfl <;>
    exact ⟨⟨by decide, by decide⟩, (essence_eq _).trans (by decide)⟩

end Text

open Text Expression

/-! ## Expressions -/

mutual

/-- A node on one line has the essence of the node. -/
theorem shows_display (e : Expression) (sound : ∀ n ∈ e.nodes, n.Sound Settled) :
    Shows e.display e.essence := by
  have opening : Shows ['('] ['('] := shows_bracket (by decide)
  have closing : Shows [')'] [')'] := shows_bracket (by decide)
  match e with
  | .plain source [] =>
    rw [nodes] at sound
    rw [display, Expression.essence, if_pos List.isEmpty_nil, if_pos List.isEmpty_nil]
    exact ⟨sound _ List.mem_cons_self, rfl⟩
  | .plain source (part :: parts) =>
    rw [nodes] at sound
    rw [display, Expression.essence, if_neg (by simp), if_neg (by simp)]
    exact (shows_displayEach (part :: parts) fun n met => sound n (List.mem_cons_of_mem _ met)).1
  | .group source parts =>
    rw [nodes] at sound
    rw [display, Expression.essence]
    have inner := (shows_displayEach parts fun n met => sound n (List.mem_cons_of_mem _ met)).1
    exact (opening.append inner).append closing
  | .call name source arguments =>
    rw [nodes] at sound
    have isKnown : name ∈ FunctionName.known := sound _ List.mem_cons_self
    rw [display, Expression.essence]
    have inner := (shows_displayEach arguments fun n met => sound n (List.mem_cons_of_mem _ met)).2
    exact (((shows_name isKnown).append opening).append inner).append closing
  | .operator op =>
    rw [display, Expression.essence]
    exact shows_lexeme op

/-- So have several nodes, with or without commas between them. -/
theorem shows_displayEach (es : List Expression)
    (sound : ∀ n ∈ nodesOfEach es, n.Sound Settled) :
    Shows (displayEach es).flatten (essences es).flatten ∧
      Shows (joined [','] (displayEach es)) (joined [','] (essences es)) := by
  match es with
  | [] =>
    rw [displayEach, essences]
    exact ⟨shows_nil, shows_nil⟩
  | e :: es =>
    rw [nodesOfEach] at sound
    obtain ⟨first, others⟩ := List.forall_mem_append.1 sound
    have shown := shows_display e first
    have later := shows_displayEach es others
    have comma : Shows [','] [','] := shows_bracket (by decide)
    rw [displayEach, essences, List.flatten_cons, List.flatten_cons]
    -- a comma follows only where another node does
    refine ⟨shown.append later.1, ?_⟩
    cases es with
    | nil =>
      rw [displayEach, essences]
      exact shown
    | cons f es =>
      rw [displayEach, essences] at later ⊢
      exact shown.append (comma.append later.2)

end

/-! ## Formulas -/

/-- The tokens of complete marks make settled leaves. -/
theorem Mark.tokenInvariant_continues : TokenInvariant Continues Settled where
  literal continues isLiteral := (continues.literal isLiteral).1
  connector continues isChar layout connector :=
    (continues.connector isChar layout connector).1
  char continues isChar noConnector := (continues.char isChar noConnector).1
  fresh := Continues.fresh
  trimmed continues := (continues.fresh (List.infix_refl _)).trimmed
  name continues known :=
    ⟨fun _ met => absurd met List.not_mem_nil, fun _ met => absurd met List.not_mem_nil,
      (essence_cutBeforeName continues.firm known).1, true, fun _ => rfl, trivial⟩
  token continues := continues.firm.settled_trim.1
  argument := Continues.settled_sourceText

/-- On one line, the tree of a formula has the essence of the body, and a `)` for every parenthesis
left open. Connectors may stand anywhere, and a `)` may lack its partner. -/
theorem essence_display_tree (t : Text) (closed : (Formula.ofText t).body.LiteralsClosed) :
    (Formula.ofText t).tree.display.essence =
      (Formula.ofText t).body.essence ++ List.replicate
        ((Formula.ofText t).faults.countP Fault.isUnclosedParenthesis) ')' := by
  generalize Formula.ofText t = f at closed ⊢
  have sound : ∀ n ∈ nodesOfEach f.tree.children, n.Sound Settled :=
    f.sound_children Mark.tokenInvariant_continues (f.continues_marks closed)
  rw [← f.essence_tree closed]
  rw [Formula.tree_parts] at sound ⊢
  rw [display, Expression.essence]
  -- a tree without parts shows its source, whose essence it has by definition
  split
  · rfl
  · exact (shows_displayEach _ sound).1.essence

/-- Connectors in front of two arguments and inside one, and two parentheses left open. -/
theorem essence_display_tree_connectors :
    (Formula.ofText "=sum(\n ├─ a│1;\n └─ \"x; y\" + (b".toList).tree.display.essence =
      "SUM(A│1,\"x; y\"+(B))".toList := by
  have body : (Formula.ofText "=sum(\n ├─ a│1;\n └─ \"x; y\" + (b".toList).body =
      "sum(\n ├─ a│1;\n └─ \"x; y\" + (b".toList := by
    decide +kernel
  have shown := essence_display_tree "=sum(\n ├─ a│1;\n └─ \"x; y\" + (b".toList
    (by rw [body]; show ∀ p ∈ _, _; decide +kernel)
  rw [shown, body]
  decide +kernel

end SheetFormula
