import SheetFormula.Format.Beautify
import SheetFormula.Proofs.Reading.Names

/-!
# Layout as a function

Without a journal, rendering is a function from expressions to texts. Here are its equations. Those
of calls are for proper names, which the known ones are, and for names that no rendering accepts.

## Main definitions

* `layout`, `layoutSequence`, `layoutEach` — an expression, parts in a row, and single parts
* `callText` — a call, from its rendered arguments
-/

namespace SheetFormula

/-- An expression at a depth. -/
def layout (style : Style) (depth : Nat) (e : Expression) : Text :=
  Id.run (render (.lenient .silent) style depth e)

/-- Parts in a row at a depth, with spaces where they belong. -/
def layoutSequence (style : Style) (depth : Nat) (es : List Expression) : Text :=
  Id.run (renderSequence (.lenient .silent) style depth es)

/-- Each of several expressions at a depth. -/
def layoutEach (style : Style) (depth : Nat) (es : List Expression) : List Text :=
  Id.run (renderEach (.lenient .silent) style depth es)

/-- A call at a depth, from its rendered arguments. -/
def callText (style : Style) (depth : Nat) (name : Text) (arguments : List Expression)
    (rendered : List Text) : Text :=
  if arguments.isEmpty then callInline name []
  else if fitsOneLine style arguments rendered then callInline name rendered
  else callBroken style depth name rendered

variable {style : Style} {depth : Nat}

section Events

variable {m : Type → Type} [Monad m] (sink : Sink m)

theorem broken_lenient (name : Text) (arguments depth : Nat) :
    (RenderEvents.lenient sink).broken name arguments depth =
      writeBroken sink name arguments depth :=
  rfl

theorem called_lenient (source : Text) (rendered : m Text) :
    (RenderEvents.lenient sink).called source rendered = rendered :=
  rfl

theorem reportIndents_lenient [LawfulMonad m] : reportIndents (.lenient sink) depth = pure () :=
  pure_bind _ _

end Events

theorem layout_plain {source : Text} {parts : List Expression} :
    layout style depth (.plain source parts) =
      if parts.isEmpty then style.leaf source else layoutSequence style depth parts := by
  rw [layout, render]
  split <;> rfl

theorem layout_group {source : Text} {parts : List Expression} :
    layout style depth (.group source parts) =
      groupText style depth (Expression.anyContainsCall parts)
        (layoutSequence style (depth + 1) parts) := by
  rw [layout, render]
  show Id.run (renderGroup _ style depth (Expression.anyContainsCall parts)
    (layoutSequence style (depth + 1) parts)) = _
  unfold renderGroup
  split <;> rfl

theorem layout_operator {op : Operator} : layout style depth (.operator op) = op.lexeme := by
  rw [layout, render]
  rfl

@[simp] theorem layoutSequence_nil : layoutSequence style depth [] = [] := by
  rw [layoutSequence, renderSequence]
  rfl

theorem layoutSequence_cons {e : Expression} {es : List Expression} :
    layoutSequence style depth (e :: es) =
      layout style depth e ++ (gapBetween e es ++ layoutSequence style depth es) := by
  rw [layoutSequence, renderSequence]
  rfl

theorem layoutEach_eq_map (es : List Expression) :
    layoutEach style depth es = es.map (layout style depth) := by
  induction es with
  | nil => rw [layoutEach, renderEach]; rfl
  | cons e es ih =>
    rw [List.map_cons, ← ih, layoutEach, renderEach]
    rfl

/-- No layout refuses a known name. -/
theorem nameFault?_of_mem_known {name : Text} (isKnown : name ∈ FunctionName.known) :
    nameFault? name = none := by
  obtain ⟨noEmpty, letters⟩ := FunctionName.spells_of_mem_known isKnown
  have names : name.all Text.isNameChar = true :=
    List.all_eq_true.2 fun c met => (FunctionName.spelling (letters c met)).2.1
  rw [nameFault?, if_neg (by simpa using noEmpty), if_pos names]

theorem layout_call_of_named {name source : Text} {arguments : List Expression}
    (named : nameFault? name = none) :
    layout style depth (.call name source arguments) =
      callText style depth name arguments (layoutEach style (depth + 1) arguments) := by
  rw [layout, render, named]
  show Id.run (if arguments.isEmpty then pure (callInline name []) else
    renderCall _ style depth name arguments (layoutEach style (depth + 1) arguments)) = _
  unfold callText renderCall
  split
  · rfl
  · split <;> rfl

/-- In place of a call without a proper name stands its source text. -/
theorem layout_misnamed {name source : Text} {arguments : List Expression} {fault : FormatFault}
    (misnamed : nameFault? name = some fault) :
    layout style depth (.call name source arguments) = source := by
  rw [layout, render, misnamed]
  rfl

theorem layout_call {name source : Text} {arguments : List Expression}
    (isKnown : name ∈ FunctionName.known) :
    layout style depth (.call name source arguments) =
      callText style depth name arguments (layoutEach style (depth + 1) arguments) :=
  layout_call_of_named (nameFault?_of_mem_known isKnown)

/-- A formula is laid out in a style without faults. -/
theorem beautify_eq {t : Text} (narrow : style.indentSize ≤ widestIndent) :
    beautify style t = (Formula.ofText t).withEquals (layout style 0 (Formula.ofText t).tree) := by
  have noFault : style.fault? = none := if_neg (Nat.not_lt.2 narrow)
  have tree : formattedWith (m := Id) style .silent (Formula.ofText t).tree =
      .ok (layout style 0 (Formula.ofText t).tree) := by
    rw [formattedWith, noFault]
    rfl
  show (match formattedWith (m := Id) style .silent (Formula.ofText t).tree with
    | .ok body => (Formula.ofText t).withEquals body
    | .error _ => t) = _
  rw [tree]

end SheetFormula
