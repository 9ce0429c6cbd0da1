import SheetFormula.Formula.Session
import SheetFormula.Proofs.Format.Layout
import SheetFormula.Proofs.Reading.Nodes

/-!
# Strict beautifying

Strict rendering answers with the layout or with the fault of the first call without a proper name,
as long as no indentation overflows (`render_silentStrict_eq`). Strict beautifying can fail in two
ways only: with the first fault of the formula, or with the fault of a style that asks for too wide
a step (`beautifyStrict_eq`). The names of calls come from the catalogue, so no layout refuses them,
and no indentation of a tree that is nested less than `nestingLimit` deep overflows.

## Main definitions

* `Expression.nesting`, `Expression.depth` — how deep groups and calls lie in each other, and how
  many of them stand around a part
* `Expression.misnaming?` — the fault of the name of a call
* `nestingLimit` — a depth that no step can make overflow
-/

namespace SheetFormula

namespace Expression

mutual

/-- The number of groups and calls around the innermost part. -/
def nesting : Expression → Nat
  | plain _ parts => nestingOfEach parts
  | group _ parts => nestingOfEach parts + 1
  | call _ _ arguments => nestingOfEach arguments + 1
  | operator _ => 0

/-- The deepest nesting among several trees. -/
def nestingOfEach : List Expression → Nat
  | [] => 0
  | e :: es => max (nesting e) (nestingOfEach es)

end

mutual

/-- The greatest number of groups and calls that stand around a part of the tree. -/
def depth : Expression → Nat
  | plain _ parts => depthOfEach parts
  | group _ parts => if parts.isEmpty then 0 else depthOfEach parts + 1
  | call _ _ arguments => if arguments.isEmpty then 0 else depthOfEach arguments + 1
  | operator _ => 0

/-- The greatest depth among several trees. -/
def depthOfEach : List Expression → Nat
  | [] => 0
  | e :: es => max (depth e) (depthOfEach es)

end

/-- The fault of the name of a node; only calls have names. -/
def misnaming? : Expression → Option FormatFault
  | call name _ _ => nameFault? name
  | _ => none

mutual

/-- Groups and calls with nothing inside them count for the nesting, but stand around no part. -/
theorem depth_le_nesting (e : Expression) : e.depth ≤ e.nesting := by
  match e with
  | plain source parts =>
    rw [depth, nesting]
    exact depthOfEach_le_nestingOfEach parts
  | group source parts =>
    have inner := depthOfEach_le_nestingOfEach parts
    rw [depth, nesting]
    split <;> omega
  | call name source arguments =>
    have inner := depthOfEach_le_nestingOfEach arguments
    rw [depth, nesting]
    split <;> omega
  | operator op =>
    rw [depth]
    exact Nat.zero_le _

theorem depthOfEach_le_nestingOfEach (es : List Expression) :
    depthOfEach es ≤ nestingOfEach es := by
  match es with
  | [] =>
    rw [depthOfEach]
    exact Nat.zero_le _
  | e :: es =>
    have first := depth_le_nesting e
    have others := depthOfEach_le_nestingOfEach es
    rw [depthOfEach, nestingOfEach]
    omega

end

end Expression

open Expression

/-- The depth `2 ^ 58`, at which the widest step reaches the limit of widths. -/
def nestingLimit : Nat := 288230376151711744

/-- No line up to a depth asks for an indentation that overflows. -/
def Style.Fits (style : Style) (depth : Nat) : Prop :=
  ∀ d ≤ depth, style.indentFault? d = none

variable {style : Style} {depth : Nat}

theorem fits_of_lt_nestingLimit (narrow : style.indentSize ≤ widestIndent)
    (shallow : depth < nestingLimit) : style.Fits depth := by
  intro d below
  have steps : style.indentSize * d ≤ widestIndent * d := Nat.mul_le_mul_right d narrow
  have limit : widestIndent * d < widthLimit := by
    unfold nestingLimit at shallow
    unfold widestIndent widthLimit
    omega
  exact if_pos (Nat.lt_of_le_of_lt steps limit)

theorem Style.Fits.mono {deeper : Nat} (fits : style.Fits deeper) (below : depth ≤ deeper) :
    style.Fits depth :=
  fun d met => fits d (Nat.le_trans met below)

/-! ## The strict layout -/

section Indents

variable {m : Type → Type} [Monad m] (sink : Sink m)

theorem indented_strict (fits : style.indentFault? depth = none) :
    (RenderEvents.strict style sink).indented depth = pure () := by
  simp only [RenderEvents.strict, fits]

theorem reportIndents_strict [LawfulMonad m] (fits : style.Fits (depth + 1)) :
    reportIndents (.strict style sink) depth = pure () := by
  rw [reportIndents, indented_strict sink (fits (depth + 1) (Nat.le_refl _)),
    indented_strict sink (fits depth (Nat.le_succ _)), pure_bind]

end Indents

/-- What strict rendering does on its way if nobody keeps a journal. -/
def silentStrict (style : Style) : RenderEvents (ExceptT FormatFault Id) :=
  .strict style .silent

theorem renderGroup_silentStrict (fits : style.Fits (depth + 1)) (holdsCall : Bool)
    (content : Text) :
    renderGroup (silentStrict style) style depth holdsCall content =
      pure (groupText style depth holdsCall content) := by
  unfold renderGroup
  split
  · rfl
  · rw [silentStrict, reportIndents_strict _ fits]
    rfl

theorem renderCall_silentStrict (fits : style.Fits (depth + 1)) {name : Text}
    {arguments : List Expression} (nonempty : arguments.isEmpty = false) (rendered : List Text) :
    renderCall (silentStrict style) style depth name arguments rendered =
      pure (callText style depth name arguments rendered) := by
  rw [callText, if_neg (by simp [nonempty]), renderCall]
  split
  · rfl
  · rw [silentStrict, reportIndents_strict _ fits]
    rfl

/-- The answer of a rendering that may meet a fault. -/
def answer {α : Type} (fault? : Option FormatFault) (a : α) : ExceptT FormatFault Id α :=
  match fault? with
  | some fault => throw fault
  | none => pure a

/-- Of two answers in a row, the fault of the first one counts. -/
theorem answer_bind {α β : Type} {a : α} {b : β} {fault? other? : Option FormatFault}
    {f : α → ExceptT FormatFault Id β} (next : f a = answer other? b) :
    answer fault? a >>= f = answer (fault?.or other?) b := by
  cases fault? with
  | some fault => rfl
  | none => exact next

theorem answer_map {α β : Type} {a : α} {fault? : Option FormatFault} (f : α → β) :
    (answer fault? a >>= fun x => pure (f x)) = answer fault? (f a) := by
  cases fault? <;> rfl

mutual

/-- Strict rendering answers with the fault of the first call without a proper name. Without such
a call it answers with the layout. -/
theorem render_silentStrict_eq (style : Style) (depth : Nat) (e : Expression)
    (fits : style.Fits (depth + e.depth)) :
    render (silentStrict style) style depth e =
      answer (e.nodes.findSome? misnaming?) (layout style depth e) := by
  match e with
  | .plain source parts =>
    rw [Expression.depth] at fits
    rw [render, layout_plain, nodes, List.findSome?_cons_of_isNone (by rfl)]
    split
    · next empty =>
      rw [List.isEmpty_iff.1 empty, nodesOfEach]
      rfl
    · exact renderSequence_silentStrict_eq style depth parts fits
  | .group source [] =>
    rw [render, renderSequence, layout_group, nodes, nodesOfEach, layoutSequence_nil]
    rfl
  | .group source (part :: parts) =>
    rw [Expression.depth, List.isEmpty_cons, if_neg Bool.false_ne_true, ← Nat.add_assoc,
      Nat.add_right_comm] at fits
    have content := renderSequence_silentStrict_eq style (depth + 1) (part :: parts) fits
    rw [render, layout_group, content, nodes, List.findSome?_cons_of_isNone (by rfl)]
    simp only [renderGroup_silentStrict (fits.mono (Nat.le_add_right _ _))]
    exact answer_map _
  | .call name source arguments =>
    rw [render, nodes]
    cases named : nameFault? name with
    | some fault =>
      rw [List.findSome?_cons_of_isSome (by rw [misnaming?, named]; rfl), misnaming?, named]
      rfl
    | none =>
      rw [List.findSome?_cons_of_isNone (by rw [misnaming?, named]; rfl),
        layout_call_of_named named, callText]
      cases arguments with
      | nil =>
        rw [renderEach, nodesOfEach]
        rfl
      | cons argument arguments =>
        rw [Expression.depth, List.isEmpty_cons, if_neg Bool.false_ne_true, ← Nat.add_assoc,
          Nat.add_right_comm] at fits
        -- the name is checked first, then come the arguments, then the indentations of the call
        have rendered := renderEach_silentStrict_eq style (depth + 1) (argument :: arguments) fits
        simp only [rendered, List.isEmpty_cons, Bool.false_eq_true, if_false,
          renderCall_silentStrict (fits.mono (Nat.le_add_right _ _)) List.isEmpty_cons]
        exact answer_map _
  | .operator op =>
    rw [render, layout_operator, nodes]
    rfl

theorem renderSequence_silentStrict_eq (style : Style) (depth : Nat) (es : List Expression)
    (fits : style.Fits (depth + depthOfEach es)) :
    renderSequence (silentStrict style) style depth es =
      answer ((nodesOfEach es).findSome? misnaming?) (layoutSequence style depth es) := by
  match es with
  | [] =>
    rw [renderSequence, layoutSequence_nil, nodesOfEach]
    rfl
  | e :: es =>
    rw [depthOfEach] at fits
    have first := render_silentStrict_eq style depth e
      (fits.mono (Nat.add_le_add_left (Nat.le_max_left _ _) depth))
    have others := renderSequence_silentStrict_eq style depth es
      (fits.mono (Nat.add_le_add_left (Nat.le_max_right _ _) depth))
    rw [renderSequence, layoutSequence_cons, nodesOfEach, List.findSome?_append, first, others]
    exact answer_bind (answer_map _)

theorem renderEach_silentStrict_eq (style : Style) (depth : Nat) (es : List Expression)
    (fits : style.Fits (depth + depthOfEach es)) :
    renderEach (silentStrict style) style depth es =
      answer ((nodesOfEach es).findSome? misnaming?) (layoutEach style depth es) := by
  match es with
  | [] =>
    rw [renderEach, layoutEach_eq_map, List.map_nil, nodesOfEach]
    rfl
  | e :: es =>
    rw [depthOfEach] at fits
    have first := render_silentStrict_eq style depth e
      (fits.mono (Nat.add_le_add_left (Nat.le_max_left _ _) depth))
    have others := renderEach_silentStrict_eq style depth es
      (fits.mono (Nat.add_le_add_left (Nat.le_max_right _ _) depth))
    rw [renderEach, layoutEach_eq_map, List.map_cons, ← layoutEach_eq_map, nodesOfEach,
      List.findSome?_append, first, others]
    exact answer_bind (answer_map _)

end

/-- Strict rendering has no fault with known names and indentations that fit. -/
theorem render_silentStrict (style : Style) (depth : Nat) (e : Expression)
    (known : ∀ n ∈ e.nodes, n.Sound fun _ => True) (fits : style.Fits (depth + e.nesting)) :
    render (silentStrict style) style depth e = pure (layout style depth e) := by
  have proper : e.nodes.findSome? misnaming? = none := by
    rw [List.findSome?_eq_none_iff]
    intro n met
    cases n with
    | call name source arguments => exact nameFault?_of_mem_known (known _ met)
    | plain | group | operator => rfl
  have shallow := Nat.add_le_add_left (depth_le_nesting e) depth
  rw [render_silentStrict_eq style depth e (fits.mono shallow), proper]
  rfl

/-! ## Formulas -/

/-- The answer of strict beautifying to a formula that can be read. -/
theorem beautifyStrict_of_tree? {t : Text} {tree : Expression}
    (accepted : (Formula.ofText t).tree? = .ok tree) :
    beautifyStrict style t =
      ((formatStrict style tree).mapError .format).map (Formula.ofText t).withEquals := by
  rw [beautifyStrict, beautifyStrictWith, accepted, formatStrict]
  show Id.run (formatStrictWith style Sink.silent tree >>= _) = _
  generalize formatStrictWith style Sink.silent tree = answer
  cases answer <;> rfl

/-- Strict beautifying answers with the first fault that a lenient reading records, else with the
fault of a style whose step is too wide, and else like beautifying. -/
theorem beautifyStrict_eq (style : Style) (t : Text) :
    (∀ fault others, (Session.start t).read.2.faults = fault :: others →
      beautifyStrict style t = .error (.reading fault)) ∧
    ((Session.start t).read.2.faults = [] → widestIndent < style.indentSize →
      beautifyStrict style t = .error (.format (.indentTooWide style.indentSize))) ∧
    ((Session.start t).read.2.faults = [] → style.indentSize ≤ widestIndent →
      (Formula.ofText t).tree.nesting < nestingLimit →
      beautifyStrict style t = .ok (beautify style t)) := by
  have recorded : (Session.start t).read.2.faults = (Formula.ofText t).faults := rfl
  have strict := (Formula.ofText t).tree?_eq_first_fault
  rw [recorded]
  refine ⟨fun fault others faults => ?_, fun faultless wide => ?_,
    fun faultless narrow shallow => ?_⟩
  · rw [faults] at strict
    rw [beautifyStrict, beautifyStrictWith, strict]
    rfl
  · rw [faultless] at strict
    have refused : formatStrict style (Formula.ofText t).tree =
        .error (.indentTooWide style.indentSize) := by
      rw [formatStrict, formatStrictWith, formatBy, Style.fault?, if_pos wide]
      rfl
    rw [beautifyStrict_of_tree? strict, refused]
    rfl
  · rw [faultless] at strict
    have fits : style.Fits (0 + (Formula.ofText t).tree.nesting) :=
      fits_of_lt_nestingLimit narrow (by rwa [Nat.zero_add])
    have laidOut : formatStrict style (Formula.ofText t).tree =
        .ok (layout style 0 (Formula.ofText t).tree) := by
      have rendered := render_silentStrict style 0 _ (Formula.ofText t).sound_tree fits
      rw [silentStrict] at rendered
      rw [formatStrict, formatStrictWith, formatBy, Style.fault?, if_neg (Nat.not_lt.2 narrow)]
      exact congrArg (fun action => Id.run action.run) rendered
    rw [beautifyStrict_of_tree? strict, laidOut, beautify_eq narrow]
    rfl

/-- A formula with a fault, a style with too wide a step, and a call that is laid out. -/
theorem beautifyStrict_sum :
    beautifyStrict .standard "=sum((a1".toList =
        .error (.reading (.unclosedParenthesis 3)) ∧
      beautifyStrict { indentSize := 65 } "=sum((a1))".toList =
        .error (.format (.indentTooWide 65)) ∧
      beautifyStrict .standard "=sum((a1))".toList =
        .ok (beautify .standard "=sum((a1))".toList) := by
  have faults : (Session.start "=sum((a1".toList).read.2.faults =
      [.unclosedParenthesis 3, .unclosedParenthesis 4] := by decide +kernel
  refine ⟨(beautifyStrict_eq _ _).1 _ _ faults, ?_, ?_⟩
  · exact (beautifyStrict_eq _ _).2.1 (by decide +kernel) (by decide)
  · exact (beautifyStrict_eq _ _).2.2 (by decide +kernel) (by decide) (by decide +kernel)

end SheetFormula
