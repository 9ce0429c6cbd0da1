import SheetFormula.Proofs.Reading.Faults
import SheetFormula.Proofs.Reading.Names

/-!
# Parts in a row

What is read of a formula follows a small grammar: parts stand in a row, of which no two neighbours
are leaves, and several parts in a row stand together only as an argument of a call. Each step of a
reading adds at most one leaf in front of a part that is none, and a property of the pending token
that the steps keep holds of all leaves (`RowInvariant.row_read`).

## Main definitions

* `Expression.InRow`, `Expression.Row`, `Expression.IsArgument` — the grammar
* `Mark.RowInvariant` — what the steps of a reading keep of a pending token
-/

namespace SheetFormula

/-- The two characters that open and close. -/
def Text.isParenthesis (c : Char) : Bool :=
  c == '(' || c == ')'

/-! ## The grammar of trees -/

namespace Expression

section Grammar

variable (P : Text → Prop)

mutual

/-- A part in a row. A leaf has the property. -/
inductive InRow : Expression → Prop where
  | leaf {t : Text} (holds : P t) (visible : t ≠ []) : InRow (plain t [])
  | group {source : Text} {parts : List Expression} (row : Row parts) : InRow (group source parts)
  | call {name source : Text} {arguments : List Expression} (known : name ∈ FunctionName.known)
      (each : ∀ a ∈ arguments, IsArgument a) : InRow (call name source arguments)
  | operator (op : Operator) : InRow (operator op)

/-- Parts in a row, no two leaves next to each other. -/
inductive Row : List Expression → Prop where
  | nil : Row []
  | cons {e : Expression} {es : List Expression} (first : InRow e)
      (apart : ∀ f ∈ es.head?, ¬(e.isLeaf = true ∧ f.isLeaf = true)) (behind : Row es) :
      Row (e :: es)

/-- An argument of a call: nothing, a single part, or several parts in a row. -/
inductive IsArgument : Expression → Prop where
  | nothing : IsArgument (plain [] [])
  | single {e : Expression} (part : InRow e) : IsArgument e
  | several {source : Text} {parts : List Expression} (two : 2 ≤ parts.length)
      (row : Row parts) : IsArgument (plain source parts)

end

end Grammar

variable {P : Text → Prop} {pending : Text} {e : Expression} {es : List Expression}

/-- In front of a part that is no leaf, a token may stand. -/
theorem Row.part (behind : Row P es) (token : P (Text.trim pending)) (part : InRow P e)
    (noLeaf : e.isLeaf = false) : Row P (tokenLeaf pending ++ e :: es) := by
  have rest : Row P (e :: es) := .cons part (fun f _ leaves => by simp [noLeaf] at leaves) behind
  unfold tokenLeaf
  split
  · exact rest
  · next visible =>
    refine .cons (.leaf token fun empty => visible (List.isEmpty_iff.2 empty)) ?_ rest
    rintro f ⟨⟩ leaves
    simp [noLeaf] at leaves

theorem row_token (token : P (Text.trim pending)) : Row P (tokenLeaf pending) := by
  unfold tokenLeaf
  split
  · exact .nil
  · next visible =>
    refine .cons (.leaf token fun empty => visible (List.isEmpty_iff.2 empty)) ?_ .nil
    rintro f ⟨⟩

/-- What is read of an argument, with its text in case that this is nothing. -/
theorem Row.isArgument {text : Text} (row : Row P es) (nothing : es = [] → text = []) :
    IsArgument P (argumentOf text es) := by
  match es with
  | [] => exact nothing rfl ▸ .nothing
  | [part] =>
    cases row with
    | cons first => exact .single first
  | first :: second :: others => exact .several (by simp) row

end Expression

open Expression

namespace Mark

/-! ## Tokens on their way -/

/-- A property of the pending token and the marks behind it that holds at every step of the readers,
and gives all tokens a property. -/
structure RowInvariant (K : Text → List Mark → Prop) (P : Text → Prop) : Prop where
  literal : ∀ {pending mark rest text closed}, K pending (mark :: rest) →
    mark.piece = .literal text closed → K (pending ++ text) rest
  connector : ∀ {pending mark rest c}, K pending (mark :: rest) → mark.piece = .char c →
    mark.isLayout = true → Text.isConnector c = true → K (pending ++ [' ']) rest
  char : ∀ {afterOperand pending mark rest c}, K pending (mark :: rest) → mark.piece = .char c →
    Text.isParenthesis c = false → ¬(mark.isLayout && Text.isConnector c) = true →
    standaloneOperator? afterOperand pending (mark :: rest) = none → K (pending ++ [c]) rest
  /-- A new token can begin anywhere. -/
  fresh : ∀ {pending ms ns}, K pending ms → ns <:+: ms → K [] ns
  trimmed : ∀ {pending ms}, K pending ms → K [] (trimmed ms)
  /-- What stands before a function name is a token by itself. -/
  name : ∀ {pending ms name}, K pending ms →
    FunctionName.canonical? (Text.cutBeforeName pending).2 = some name →
    K (Text.cutBeforeName pending).1 []
  token : ∀ {pending ms}, K pending ms → P (Text.trim pending)

variable {separator : Separator} {ms : List Mark}

/-! ## What a reading leaves out -/

/-- A character that is no blank makes a token visible. -/
theorem tokenLeaf_ne_nil {c : Char} (noBlank : Text.isBlank c = false) {t : Text} (met : c ∈ t) :
    tokenLeaf t ≠ [] := by
  have visible : c ∈ Text.trim t := by
    obtain ⟨lead, trail, whole, leading, trailing⟩ := trimEnds_split Text.isBlank t
    rw [whole, List.mem_append, List.mem_append] at met
    rcases met with (met | met) | met
    · rw [leading c met] at noBlank
      cases noBlank
    · exact met
    · rw [trailing c met] at noBlank
      cases noBlank
  rw [tokenLeaf, if_neg fun empty => ?_]
  · exact List.cons_ne_nil _ _
  · rw [List.isEmpty_iff.1 empty] at visible
    cases visible

/-- Only from layout, and blanks in the pending token, no part is read. -/
theorem value_read_ne_nil (afterOperand : Bool) (pending : Text) (readable : Readable ms)
    (visible : (∃ c ∈ pending, Text.isBlank c = false) ∨ ∃ m ∈ ms, m.isLayout = false) :
    (read separator afterOperand pending ms).value ≠ [] := by
  revert visible
  refine read_induction separator
    (motive := fun afterOperand pending ms =>
      ((∃ c ∈ pending, Text.isBlank c = false) ∨ ∃ m ∈ ms, m.isLayout = false) →
        (read separator afterOperand pending ms).value ≠ [])
    ?nil ?literal ?connector ?operator ?char ?call ?group afterOperand pending readable
  case nil =>
    rintro afterOperand pending (⟨c, met, noBlank⟩ | ⟨m, met, -⟩)
    · rw [read_nil]
      exact tokenLeaf_ne_nil noBlank met
    · cases met
  case literal =>
    intro afterOperand pending mark rest text closed readable isLiteral ih _
    rw [read_literal isLiteral]
    have quote := readable.genuine.head.quote_of_literal text closed isLiteral
    exact ih (.inl ⟨'"', List.mem_append_right _ (List.mem_of_head? quote), by decide⟩)
  case connector =>
    intro afterOperand pending mark rest c _ isChar noOpening connector ih visible
    rw [read_connector isChar noOpening connector]
    refine ih ?_
    rcases visible with ⟨d, met, noBlank⟩ | ⟨m, met, noLayout⟩
    · exact .inl ⟨d, List.mem_append_left _ met, noBlank⟩
    · rcases List.mem_cons.1 met with rfl | met
      · simp [noLayout] at connector
      · exact .inr ⟨m, met, noLayout⟩
  case operator =>
    intro afterOperand pending mark rest c op _ isChar noOpening noConnector standalone _ _ _ _
    rw [read_operator isChar noOpening noConnector standalone, Transcript.value_bind,
      Transcript.value_pure]
    simp
  case char =>
    intro afterOperand pending mark rest c readable isChar noOpening _ noConnector joins ih visible
    rw [read_char isChar noOpening noConnector joins]
    refine ih ?_
    rcases visible with ⟨d, met, noBlank⟩ | ⟨m, met, noLayout⟩
    · exact .inl ⟨d, List.mem_append_left _ met, noBlank⟩
    · rcases List.mem_cons.1 met with rfl | met
      · -- the character is no layout, so it is no blank, and the token holds it now
        refine .inl ⟨c, by simp, ?_⟩
        by_contra blank
        rw [readable.genuine.head.layout_of_blank c isChar (by simpa using blank)] at noLayout
        cases noLayout
      · exact .inr ⟨m, met, noLayout⟩
  case call =>
    intro afterOperand pending opening inside tail name _ isOpening insideReadable closes _ known
      _ _ _
    rw [value_read_call isOpening insideReadable closes known]
    simp
  case group =>
    intro afterOperand pending opening inside tail _ isOpening insideReadable closes _ unknown _ _ _
    rw [value_read_group isOpening insideReadable closes unknown]
    simp

/-- Marks without layout around them that make no part are none. -/
theorem trimmed_eq_nil (readable : Readable ms) {afterOperand : Bool}
    (nothing : (read separator afterOperand [] (trimmed ms)).value = []) : trimmed ms = [] := by
  by_contra visible
  obtain ⟨m, others, whole⟩ := List.exists_cons_of_ne_nil visible
  have noLayout : m.isLayout = false := by
    obtain ⟨first, core, cut, rfl, -⟩ := List.map_eq_cons_iff.1 (Mark.trimmed.eq_1 ms ▸ whole)
    have isFirst : (trimEnds isLayout ms).head? = some first := by rw [cut]; rfl
    rw [isLayout_trimUnclosed]
    exact head?_trimEnds isFirst
  exact value_read_ne_nil afterOperand [] readable.trimmed
    (.inr ⟨m, whole ▸ List.mem_cons_self, noLayout⟩) nothing

/-! ## Parts in a row -/

/-- Whatever is read, its parts stand in a row, and all tokens have the property. -/
theorem RowInvariant.row_read {K : Text → List Mark → Prop} {P : Text → Prop}
    (invariant : RowInvariant K P) (afterOperand : Bool) (pending : Text) (readable : Readable ms)
    (holds : K pending ms) : Row P (read separator afterOperand pending ms).value := by
  revert holds
  refine read_induction separator
    (motive := fun afterOperand pending ms =>
      K pending ms → Row P (read separator afterOperand pending ms).value)
    ?nil ?literal ?connector ?operator ?char ?call ?group afterOperand pending readable
  case nil =>
    intro afterOperand pending holds
    rw [read_nil]
    exact row_token (invariant.token holds)
  case literal =>
    intro afterOperand pending mark rest text closed _ isLiteral ih holds
    rw [read_literal isLiteral]
    exact ih (invariant.literal holds isLiteral)
  case connector =>
    intro afterOperand pending mark rest c _ isChar noOpening connector ih holds
    rw [read_connector isChar noOpening connector]
    rw [Bool.and_eq_true] at connector
    exact ih (invariant.connector holds isChar connector.1 connector.2)
  case operator =>
    intro afterOperand pending mark rest c op _ isChar noOpening noConnector standalone _ _ ih holds
    have behind := ih (invariant.fresh holds (drop_isInfix mark rest _))
    rw [read_operator isChar noOpening noConnector standalone, Transcript.value_bind,
      Transcript.value_pure]
    exact behind.part (invariant.token holds) (.operator op) rfl
  case char =>
    intro afterOperand pending mark rest c _ isChar noOpening noClosing noConnector joins ih holds
    have noParenthesis : Text.isParenthesis c = false := by
      simp [Text.isParenthesis, noOpening, noClosing]
    rw [read_char isChar noOpening noConnector joins]
    exact ih (invariant.char holds isChar noParenthesis noConnector joins)
  case call =>
    intro afterOperand pending opening inside tail name _ isOpening insideReadable closes _ known
      ihArguments ihTail holds
    have insideHolds := invariant.fresh holds (inside_isInfix opening inside tail)
    have arguments : ∀ a ∈ (argumentParts separator inside).map (readArgument separator),
        IsArgument P a := by
      refine List.forall_mem_map.2 fun part isPart => ?_
      have partHolds : K [] part := invariant.fresh insideHolds
        (isInfix_of_mem_argumentParts insideReadable.enclosed isPart)
      have row := ihArguments part isPart (invariant.trimmed partHolds)
      refine row.isArgument fun nothing => ?_
      rw [trimmed_eq_nil (insideReadable.of_mem_argumentParts isPart) nothing]
      rfl
    have behind := ihTail (invariant.fresh holds (tail_isInfix opening inside tail))
    rw [value_read_call isOpening insideReadable closes known]
    exact behind.part (invariant.token (invariant.name holds known))
      (.call (FunctionName.canonical?_eq_some.1 known).1 arguments) rfl
  case group =>
    intro afterOperand pending opening inside tail _ isOpening insideReadable closes _ unknown
      ihInside ihTail holds
    have parts := ihInside (invariant.fresh holds (inside_isInfix opening inside tail))
    have behind := ihTail (invariant.fresh holds (tail_isInfix opening inside tail))
    rw [value_read_group isOpening insideReadable closes unknown]
    exact behind.part (invariant.token holds) (.group parts) rfl

end Mark

end SheetFormula
