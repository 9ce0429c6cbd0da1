import SheetFormula.Proofs.Format.Strict

/-!
# Widths that are counted in words

Lenient rendering that counts widths in words is strict rendering that recovers at calls: a fault
inside of a call leaves the source text of the call, so only an indentation outside of calls is left
to end it (`exists_render_bounded_call`). In a tree that is less deep than `nestingLimit` there is
no such indentation. What is rendered, beautified and written into a journal is then the same as
with widths of any size (`formattedBoundedWith_eq`, `beautifyBoundedWith_eq`).
-/

namespace SheetFormula

open Expression

variable {m : Type → Type} [Monad m] (sink : Sink m) {style : Style} {depth : Nat}

theorem called_bounded (source : Text) (rendered : ExceptT FormatFault m Text) :
    (RenderEvents.bounded style sink).called source rendered =
      tryCatch rendered fun fault => ExceptT.lift (keepSource sink source fault) :=
  rfl

variable [LawfulMonad m]

/-! ## Actions that recover -/

section Actions

variable {α β : Type}

theorem lift_bind (x : m α) (f : α → m β) :
    (ExceptT.lift x >>= fun a => ExceptT.lift (f a) : ExceptT FormatFault m β) =
      ExceptT.lift (x >>= f) :=
  (LawfulMonadLift.monadLift_bind x f).symm

theorem lift_pure (a : α) : (ExceptT.lift (pure a) : ExceptT FormatFault m α) = pure a := by
  apply ExceptT.ext
  rw [ExceptT.run_lift, map_pure, ExceptT.run_pure]

/-- An action that recovers from all faults has none. -/
theorem tryCatch_eq_lift (x : ExceptT FormatFault m α) (recover : FormatFault → m α) :
    tryCatch x (fun fault => ExceptT.lift (recover fault)) =
      ExceptT.lift (x.run >>= fun
        | .ok a => pure a
        | .error fault => recover fault) := by
  apply ExceptT.ext
  rw [ExceptT.run_tryCatch, ExceptT.run_lift, map_bind]
  refine bind_congr fun result => ?_
  cases result with
  | ok a => exact (map_pure _ a).symm
  | error fault => rfl

theorem tryCatch_lift (x : m α) (recover : FormatFault → m α) :
    tryCatch (ExceptT.lift x : ExceptT FormatFault m α)
      (fun fault => ExceptT.lift (recover fault)) = ExceptT.lift x := by
  rw [tryCatch_eq_lift, ExceptT.run_lift, bind_map_left, bind_pure]

theorem tryCatch_throw (fault : FormatFault) (recover : FormatFault → m α) :
    tryCatch (throw fault : ExceptT FormatFault m α)
      (fun fault => ExceptT.lift (recover fault)) = ExceptT.lift (recover fault) := by
  rw [tryCatch_eq_lift, ExceptT.run_throw, pure_bind]

end Actions

/-- A call is rendered without a fault, whatever is inside of it. -/
theorem exists_render_bounded_call (name source : Text) (arguments : List Expression) :
    ∃ action : m Text, render (.bounded style sink) style depth (.call name source arguments) =
      ExceptT.lift action := by
  rw [render, called_bounded, tryCatch_eq_lift]
  exact ⟨_, rfl⟩

/-- A call whose indentations overflow keeps its source text. -/
example :
    (render (.bounded { indentSize := 64 } .silent) { indentSize := 64 } nestingLimit
        (.call "SUM".toList "sum(pi())".toList [.call "PI".toList [] []]) :
      ExceptT FormatFault Id Text) = pure "sum(pi())".toList := by
  rfl

/-! ## Trees that fit -/

theorem reportIndents_bounded (fits : style.Fits (depth + 1)) :
    reportIndents (.bounded style sink) depth = pure () :=
  reportIndents_strict sink fits

theorem renderGroup_bounded (fits : style.Fits (depth + 1)) (holdsCall : Bool) (content : Text) :
    renderGroup (.bounded style sink) style depth holdsCall content =
      ExceptT.lift (renderGroup (.lenient sink) style depth holdsCall content) := by
  unfold renderGroup
  split
  · exact (lift_pure _).symm
  · rw [reportIndents_bounded sink fits, reportIndents_lenient, pure_bind, pure_bind, lift_pure]

theorem renderCall_bounded (fits : style.Fits (depth + 1)) (name : Text)
    (arguments : List Expression) (rendered : List Text) :
    renderCall (.bounded style sink) style depth name arguments rendered =
      ExceptT.lift (renderCall (.lenient sink) style depth name arguments rendered) := by
  unfold renderCall
  split
  · exact (lift_pure _).symm
  · rw [reportIndents_bounded sink fits, reportIndents_lenient, ← lift_bind]
    simp only [pure_bind, lift_pure]
    rfl

mutual

/-- Where no indentation overflows, widths may as well be of any size. -/
theorem render_bounded (style : Style) (depth : Nat) (e : Expression)
    (fits : style.Fits (depth + e.depth)) :
    render (.bounded style sink) style depth e =
      ExceptT.lift (render (.lenient sink) style depth e) := by
  match e with
  | .plain source parts =>
    rw [Expression.depth] at fits
    rw [render, render]
    split
    · exact (lift_pure _).symm
    · exact renderSequence_bounded style depth parts fits
  | .group source [] =>
    rw [render, render, renderSequence, renderSequence, pure_bind, pure_bind]
    exact (lift_pure _).symm
  | .group source (part :: parts) =>
    rw [Expression.depth, List.isEmpty_cons, if_neg Bool.false_ne_true, ← Nat.add_assoc,
      Nat.add_right_comm] at fits
    have content := renderSequence_bounded style (depth + 1) (part :: parts) fits
    rw [render, render, content, ← lift_bind]
    simp only [renderGroup_bounded sink (fits.mono (Nat.le_add_right _ _))]
  | .call name source arguments =>
    rw [render, render, called_bounded, called_lenient]
    cases named : nameFault? name with
    | some fault => exact tryCatch_throw fault _
    | none =>
      cases arguments with
      | nil =>
        rw [renderEach, renderEach, pure_bind, pure_bind, List.isEmpty_nil, if_pos rfl, if_pos rfl,
          ← lift_pure, tryCatch_lift]
      | cons argument arguments =>
        rw [Expression.depth, List.isEmpty_cons, if_neg Bool.false_ne_true, ← Nat.add_assoc,
          Nat.add_right_comm] at fits
        have rendered := renderEach_bounded style (depth + 1) (argument :: arguments) fits
        simp only [rendered, List.isEmpty_cons, Bool.false_eq_true, if_false, lift_bind,
          renderCall_bounded sink (fits.mono (Nat.le_add_right _ _)), tryCatch_lift]
  | .operator op =>
    rw [render, render]
    exact (lift_pure _).symm

theorem renderSequence_bounded (style : Style) (depth : Nat) (es : List Expression)
    (fits : style.Fits (depth + depthOfEach es)) :
    renderSequence (.bounded style sink) style depth es =
      ExceptT.lift (renderSequence (.lenient sink) style depth es) := by
  match es with
  | [] =>
    rw [renderSequence, renderSequence]
    exact (lift_pure _).symm
  | e :: es =>
    rw [depthOfEach] at fits
    have first := render_bounded style depth e
      (fits.mono (Nat.add_le_add_left (Nat.le_max_left _ _) depth))
    have others := renderSequence_bounded style depth es
      (fits.mono (Nat.add_le_add_left (Nat.le_max_right _ _) depth))
    rw [renderSequence, renderSequence, first, others]
    simp only [← lift_pure, lift_bind]

theorem renderEach_bounded (style : Style) (depth : Nat) (es : List Expression)
    (fits : style.Fits (depth + depthOfEach es)) :
    renderEach (.bounded style sink) style depth es =
      ExceptT.lift (renderEach (.lenient sink) style depth es) := by
  match es with
  | [] =>
    rw [renderEach, renderEach]
    exact (lift_pure _).symm
  | e :: es =>
    rw [depthOfEach] at fits
    have first := render_bounded style depth e
      (fits.mono (Nat.add_le_add_left (Nat.le_max_left _ _) depth))
    have others := renderEach_bounded style depth es
      (fits.mono (Nat.add_le_add_left (Nat.le_max_right _ _) depth))
    rw [renderEach, renderEach, first, others]
    simp only [← lift_pure, lift_bind]

end

/-! ## Formulas -/

/-- An expression that is less deep than the limit is formatted as with widths of any size. -/
theorem formattedBoundedWith_eq (style : Style) {tree : Expression}
    (shallow : tree.depth < nestingLimit) :
    formattedBoundedWith style sink tree = formattedWith style sink tree := by
  rw [formattedBoundedWith, formatBy, formattedWith]
  cases isFault : style.fault? with
  | some fault => rfl
  | none =>
    have narrow : style.indentSize ≤ widestIndent := by
      rw [Style.fault?, ite_eq_right_iff] at isFault
      exact Nat.not_lt.1 fun wide => by cases isFault wide
    have fits := fits_of_lt_nestingLimit narrow shallow
    rw [← Nat.zero_add tree.depth] at fits
    exact congrArg ExceptT.run (render_bounded sink style 0 tree fits)

/-- A formula that is less deep than the limit is beautified as with widths of any size, and the
journal gets the same lines. -/
theorem beautifyBoundedWith_eq (style : Style) {t : Text}
    (shallow : (Formula.ofText t).tree.depth < nestingLimit) :
    beautifyBoundedWith sink style t = beautifyWith sink style t := by
  have formatting := formattedBoundedWith_eq sink style shallow
  simp only [beautifyBoundedWith, beautifyWith, beautifyBy, readWith, bind_assoc, pure_bind,
    formatting]

end SheetFormula
