import SheetFormula.Formula.Reading

/-!
# Transcripts of a reading

A transcript is a reading in which nothing is decided about faults: they are written down, and the
reading goes on. Every other reading is the replay of the transcript (`replay_readBody`), and no
transcript tells of a call without an argument list (`recoverable_readBody`).

## Main definitions

* `Transcript` — a value and the faults reported on the way to it
* `Transcript.replay` — a transcript as an action of a caller
* `Transcript.Recoverable` — all faults are faults of the text
-/

namespace SheetFormula

/-- A value, and the faults reported on the way to it in order, with repetitions. -/
structure Transcript (α : Type) where
  value : α
  faults : List Fault

namespace Transcript

instance : Monad Transcript where
  pure a := ⟨a, []⟩
  bind t f := ⟨(f t.value).value, t.faults ++ (f t.value).faults⟩

variable {α β : Type}

@[simp] theorem value_pure (a : α) : (pure a : Transcript α).value = a := rfl

@[simp] theorem faults_pure (a : α) : (pure a : Transcript α).faults = [] := rfl

@[simp] theorem value_bind (t : Transcript α) (f : α → Transcript β) :
    (t >>= f).value = (f t.value).value := rfl

@[simp] theorem faults_bind (t : Transcript α) (f : α → Transcript β) :
    (t >>= f).faults = t.faults ++ (f t.value).faults := rfl

/-- Every event is written down. -/
def events : ReadEvents Transcript where
  faulty fault := ⟨(), [fault]⟩
  unopened name position := ⟨(), [.missingArgumentList name position]⟩

@[simp] theorem faults_faulty (fault : Fault) : (events.faulty fault).faults = [fault] := rfl

section Replay

variable {m : Type → Type} [Monad m] (caller : ReadEvents m)

/-- What the caller does about a fault of a transcript. -/
def react : Fault → m Unit
  | .missingArgumentList name position => caller.unopened name position
  | fault => caller.faulty fault

/-- The caller reacts to every fault and takes over the value. -/
def replay (t : Transcript α) : m α := do
  t.faults.forM (react caller)
  pure t.value

variable [LawfulMonad m]

@[simp] theorem replay_pure (a : α) : replay caller (pure a : Transcript α) = pure a := by
  simp [replay]

@[simp] theorem replay_bind (t : Transcript α) (f : α → Transcript β) :
    replay caller (t >>= f) = replay caller t >>= fun a => replay caller (f a) := by
  have split : (t.faults ++ (f t.value).faults).forM (react caller) = (do
      t.faults.forM (react caller)
      (f t.value).faults.forM (react caller)) := List.forM_append
  simp only [replay, value_bind, faults_bind, split, bind_assoc, pure_bind]

end Replay

end Transcript

/-! ## Every reading is a replay -/

section Reading

open Transcript

variable {m : Type → Type} [Monad m] [LawfulMonad m] (caller : ReadEvents m)
  (separator : Separator)

theorem replay_reportLiteral (closed : Bool) (position : Nat) :
    replay caller (reportLiteral events closed position) =
      reportLiteral caller closed position := by
  cases closed <;> simp [reportLiteral, replay, react, events]

theorem replay_reportUnclosedLiteral (ms : List Mark) :
    replay caller (reportUnclosedLiteral events ms) = reportUnclosedLiteral caller ms := by
  unfold reportUnclosedLiteral
  cases ms.find? Mark.isUnclosed <;> simp [replay, react, events]

theorem replay_reportUnclosedParenthesis (opening : Mark) (tail : List Mark) :
    replay caller (reportUnclosedParenthesis events opening tail) =
      reportUnclosedParenthesis caller opening tail := by
  unfold reportUnclosedParenthesis
  split <;> simp [replay, react, events]

theorem replay_reportUnopened (name : Text) (opening : Mark) :
    replay caller (reportUnopened events name opening) =
      reportUnopened caller name opening := by
  unfold reportUnopened
  split <;> simp [replay, react, events]

theorem replay_finishParts (parts : List Expression) (tail : List Mark) :
    replay caller (finishParts events parts tail) = finishParts caller parts tail := by
  cases tail <;> simp [finishParts, replay, react, events]

/-- The four readers at once, along their common recursion. -/
private theorem replay_read :
    (∀ afterOperand pending ms,
      replay caller (readSequence events separator afterOperand pending ms) =
        readSequence caller separator afterOperand pending ms) ∧
    (∀ pending opening inside tail,
      replay caller (readOpened events separator pending opening inside tail) =
        readOpened caller separator pending opening inside tail) ∧
    (∀ parts, replay caller (readArguments events separator parts) =
        readArguments caller separator parts) ∧
    ∀ ms, replay caller (readWhole events separator ms) = readWhole caller separator ms := by
  -- which case a reader is in depends on the marks only, so both sides are in the same one
  apply readSequence.mutual_induct separator
  case case1 =>
    intro afterOperand pending
    simp [readSequence]
  case case2 =>
    intro afterOperand pending mark rest text closed isLiteral ih
    rw [readSequence, readSequence]
    simp only [isLiteral, replay_bind, replay_reportLiteral, ih]
  case case3 =>
    intro afterOperand pending mark rest isOpening ih
    rw [readSequence, readSequence]
    simp only [isOpening, if_pos, ih]
  case case4 =>
    intro afterOperand pending mark rest c isChar notOpening connector ih
    rw [readSequence, readSequence]
    simp only [isChar, if_neg notOpening, if_pos connector, ih]
  case case5 =>
    intro afterOperand pending mark rest c isChar notOpening noConnector op standalone ih
    rw [readSequence, readSequence]
    simp only [isChar, if_neg notOpening, if_neg noConnector, standalone, replay_bind, ih,
      replay_pure]
  case case6 =>
    intro afterOperand pending mark rest c isChar notOpening noConnector joins ih
    rw [readSequence, readSequence]
    simp only [isChar, if_neg notOpening, if_neg noConnector, joins, ih]
  case case7 =>
    intro pending opening inside tail name known ihArguments ihTail
    rw [readOpened, readOpened]
    simp only [known, replay_bind, replay_reportUnopened, replay_reportUnclosedLiteral,
      replay_reportUnclosedParenthesis, ihArguments, ihTail, replay_pure]
  case case8 =>
    intro pending opening inside tail unknown ihInside ihTail
    rw [readOpened, readOpened]
    simp only [unknown, replay_bind, replay_reportUnclosedParenthesis, ihInside, ihTail,
      replay_pure]
  case case9 => simp [readArguments]
  case case10 =>
    intro part parts ihPart ihParts
    rw [readArguments, readArguments]
    simp only [replay_bind, ihPart, ihParts, replay_pure]
  case case11 =>
    intro ms ih
    rw [readWhole, readWhole]
    simp only [replay_bind, ih, replay_finishParts]

/-- Reading a body means to replay its transcript. -/
theorem replay_readBody (body : Text) :
    replay caller (readBody events separator body) = readBody caller separator body := by
  simp only [readBody, replay_bind, (replay_read caller separator).2.2.2, replay_pure]

end Reading

/-! ## No call without an argument list -/

/-- A fault of the text, which lenient readers recover from. -/
def Fault.IsRecoverable : Fault → Prop
  | .missingArgumentList _ _ => False
  | _ => True

/-- Every fault of the transcript is one of the text. -/
def Transcript.Recoverable {α : Type} (t : Transcript α) : Prop :=
  ∀ fault ∈ t.faults, fault.IsRecoverable

section Recoverable

open Transcript

variable {α β : Type}

theorem Transcript.Recoverable.pure (a : α) : (pure a : Transcript α).Recoverable := by
  intro fault met
  simp at met

theorem Transcript.Recoverable.bind {t : Transcript α} {f : α → Transcript β}
    (first : t.Recoverable) (second : (f t.value).Recoverable) : (t >>= f).Recoverable := by
  intro fault met
  rw [faults_bind, List.mem_append] at met
  rcases met with met | met
  · exact first fault met
  · exact second fault met

theorem Transcript.Recoverable.faulty {fault : Fault} (recoverable : fault.IsRecoverable) :
    (events.faulty fault).Recoverable := by
  intro other met
  rw [faults_faulty, List.mem_singleton] at met
  exact met ▸ recoverable

theorem recoverable_reportLiteral (closed : Bool) (position : Nat) :
    (reportLiteral events closed position).Recoverable := by
  cases closed
  · exact .faulty trivial
  · exact .pure ()

theorem recoverable_reportUnclosedLiteral (ms : List Mark) :
    (reportUnclosedLiteral events ms).Recoverable := by
  unfold reportUnclosedLiteral
  split
  · exact .faulty trivial
  · exact .pure ()

theorem recoverable_reportUnclosedParenthesis (opening : Mark) (tail : List Mark) :
    (reportUnclosedParenthesis events opening tail).Recoverable := by
  unfold reportUnclosedParenthesis
  split
  · exact .faulty trivial
  · exact .pure ()

theorem recoverable_reportUnopened {opening : Mark} (isOpening : opening.char? = some '(')
    (name : Text) : (reportUnopened events name opening).Recoverable := by
  rw [reportUnopened, if_pos isOpening]
  exact .pure ()

theorem recoverable_finishParts (parts : List Expression) (tail : List Mark) :
    (finishParts events parts tail).Recoverable := by
  cases tail with
  | nil => exact .pure parts
  | cons stray tail => exact .bind (.faulty trivial) (.pure _)

/-- A call is only read behind its parenthesis, so no reader meets one without. -/
private theorem recoverable_read (separator : Separator) :
    (∀ afterOperand pending ms,
      (readSequence events separator afterOperand pending ms).Recoverable) ∧
    (∀ pending opening inside tail, opening.char? = some '(' →
      (readOpened events separator pending opening inside tail).Recoverable) ∧
    (∀ parts, (readArguments events separator parts).Recoverable) ∧
    ∀ ms, (readWhole events separator ms).Recoverable := by
  apply readSequence.mutual_induct separator
  case case1 =>
    intro afterOperand pending
    rw [readSequence]
    exact .pure _
  case case2 =>
    intro afterOperand pending mark rest text closed isLiteral ih
    rw [readSequence]
    simp only [isLiteral]
    exact .bind (recoverable_reportLiteral _ _) ih
  case case3 =>
    intro afterOperand pending mark rest isOpening ih
    rw [readSequence]
    simp only [isOpening, if_pos]
    -- what is opened here is the parenthesis that was met
    exact ih (by rw [Mark.char?, isOpening]; rfl)
  case case4 =>
    intro afterOperand pending mark rest c isChar notOpening connector ih
    rw [readSequence]
    simp only [isChar, if_neg notOpening, if_pos connector]
    exact ih
  case case5 =>
    intro afterOperand pending mark rest c isChar notOpening noConnector op standalone ih
    rw [readSequence]
    simp only [isChar, if_neg notOpening, if_neg noConnector, standalone]
    exact .bind ih (.pure _)
  case case6 =>
    intro afterOperand pending mark rest c isChar notOpening noConnector joins ih
    rw [readSequence]
    simp only [isChar, if_neg notOpening, if_neg noConnector, joins]
    exact ih
  case case7 =>
    intro pending opening inside tail name known ihArguments ihTail isOpening
    rw [readOpened]
    simp only [known]
    exact .bind (recoverable_reportUnopened isOpening name) <|
      .bind (recoverable_reportUnclosedLiteral _) <|
      .bind (recoverable_reportUnclosedParenthesis _ _) <|
      .bind ihArguments <| .bind ihTail (.pure _)
  case case8 =>
    intro pending opening inside tail unknown ihInside ihTail isOpening
    rw [readOpened]
    simp only [unknown]
    exact .bind ihInside <| .bind (recoverable_reportUnclosedParenthesis _ _) <|
      .bind ihTail (.pure _)
  case case9 =>
    rw [readArguments]
    exact .pure _
  case case10 =>
    intro part parts ihPart ihParts
    rw [readArguments]
    exact .bind ihPart (.bind ihParts (.pure _))
  case case11 =>
    intro ms ih
    rw [readWhole]
    exact .bind ih (recoverable_finishParts _ _)

theorem recoverable_readBody (separator : Separator) (body : Text) :
    (readBody events separator body).Recoverable := by
  rw [readBody]
  exact .bind ((recoverable_read separator).2.2.2 _) (.pure _)

end Recoverable

end SheetFormula
