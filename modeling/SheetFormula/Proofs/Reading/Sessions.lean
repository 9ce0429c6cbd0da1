import SheetFormula.Proofs.Reading.Modes

/-!
# Runs of sessions

A session may be read and switched between the modes any number of times. It never knows more than
the faults that one lenient reading records, and it knows all of them from the first such reading
on; a strict reading leaves nothing behind, even where it ends halfway (`read_after`).

## Main definitions

* `Session.Step`, `Session.after` — what is done with a session, and the session behind it
* `Session.Step.recordAny` — whether one of the steps is a lenient reading
* `Session.readShared` — a reading in either mode that works on the faults of the session
* `Session.Follows` — what holds of a session between two steps
-/

namespace SheetFormula

/-! ## Readings on one record of faults -/

/-- What a fault does to a reading in a mode. Both modes have the recorded faults at hand. -/
def Mode.events : Mode → ReadEvents (ExceptT Fault (StateM (List Fault)))
  | .lenient => Formula.lenientEvents
  | .strict => {
      faulty := fun fault => throw fault
      unopened := fun name position => throw (.missingArgumentList name position) }

/-- A strict replay leaves the recorded faults as they are, wherever it ends. -/
theorem Formula.replay_strict_events {α : Type} (t : Transcript α) (known : List Fault) :
    Id.run ((t.replay Mode.strict.events).run.run known) = (t.replay strictEvents, known) := by
  obtain ⟨value, faults⟩ := t
  cases faults with
  | nil => rfl
  | cons fault others => cases fault <;> rfl

namespace Session

/-- The answer of a reading and the faults recorded behind it. All that the reading meets works on
one record of faults. -/
def readShared (s : Session) : Except Fault Expression × List Fault :=
  Id.run ((readBody s.mode.events s.formula.separator s.formula.body).run.run s.faults)

/-- The two modes of a session are one reader, which either adds to the record or ends. -/
theorem read_eq_readShared (s : Session) :
    s.read = (s.readShared.1, { s with faults := s.readShared.2 }) := by
  obtain ⟨f, mode, known⟩ := s
  cases mode with
  | lenient => rfl
  | strict =>
    have shared : readShared ⟨f, .strict, known⟩ = (f.tree?, known) := by
      rw [readShared, Formula.tree?, ← replay_readBody, ← replay_readBody Formula.strictEvents]
      exact Formula.replay_strict_events _ known
    rw [shared]
    rfl

/-! ## Steps -/

/-- One thing that is done with a session. -/
inductive Step where
  /-- The formula is read in the mode of the session. -/
  | read
  /-- The session goes over to a mode. -/
  | switch (mode : Mode)
  deriving DecidableEq

namespace Step

/-- The mode behind a step. -/
def modeBehind (mode : Mode) : Step → Mode
  | read => mode
  | switch other => other

/-- Whether a step in a mode is a lenient reading. -/
def records (mode : Mode) : Step → Bool
  | read => mode = .lenient
  | switch _ => false

/-- Whether one of several steps, the first of them in a mode, is a lenient reading. -/
def recordAny (mode : Mode) : List Step → Bool
  | [] => false
  | step :: steps => step.records mode || recordAny (step.modeBehind mode) steps

end Step

/-- The session behind a step. -/
def perform (s : Session) : Step → Session
  | .read => s.read.2
  | .switch mode => s.withMode mode

/-- The session behind several steps, one after the other. -/
def after (s : Session) (steps : List Step) : Session :=
  steps.foldl perform s

/-! ## What one step and a whole run preserve -/

/-- A session on a formula that has recorded either its faults or nothing. -/
structure Follows (f : Formula) (recorded : Bool) (s : Session) : Prop where
  formula : s.formula = f
  faults : s.faults = if recorded then f.faults else []

variable {f : Formula} {recorded : Bool} {s : Session}

theorem follows_start (t : Text) : Follows (Formula.ofText t) false (start t) :=
  ⟨rfl, rfl⟩

/-- Faults that are known are not recorded again. -/
theorem foldl_addTo_of_subset {faults known : List Fault} (subset : faults ⊆ known) :
    faults.foldl Fault.addTo known = known := by
  induction faults with
  | nil => rfl
  | cons fault others ih =>
    obtain ⟨isKnown, others⟩ := List.cons_subset.1 subset
    rw [List.foldl_cons, Fault.addTo, if_pos isKnown, ih others]

/-- A lenient reading knows all faults behind it, and no other ones. -/
theorem Follows.recover_eq (follows : Follows f recorded s) :
    s.formula.recover s.faults = (.ok f.tree, f.faults) := by
  have known : f.transcript.faults.foldl Fault.addTo s.faults = f.faults := by
    rw [follows.faults]
    cases recorded with
    | false => exact f.faults_eq.symm
    | true => exact foldl_addTo_of_subset fun fault met => (f.mem_faults fault).2 met
  rw [follows.formula, Formula.recover_eq, known, f.tree_eq]

theorem Follows.read_eq (follows : Follows f recorded s) :
    s.read = match s.mode with
      | .lenient => (.ok f.tree, { s with faults := f.faults })
      | .strict => (f.tree?, s) := by
  have answer := follows.recover_eq
  have formula := follows.formula
  obtain ⟨g, mode, known⟩ := s
  cases mode with
  | lenient => rw [read, answer]
  | strict => rw [read, formula]

/-- One step records all faults or none. -/
theorem Follows.perform (follows : Follows f recorded s) (step : Step) :
    Follows f (recorded || step.records s.mode) (s.perform step) ∧
      (s.perform step).mode = step.modeBehind s.mode := by
  have answer := follows.read_eq
  obtain ⟨g, mode, known⟩ := s
  cases step with
  | switch other =>
    rw [Step.records, Bool.or_false]
    exact ⟨⟨follows.formula, follows.faults⟩, rfl⟩
  | read =>
    rw [Session.perform, answer]
    cases mode with
    | lenient => exact ⟨⟨follows.formula, by simp [Step.records]⟩, rfl⟩
    | strict => exact ⟨⟨follows.formula, by simpa [Step.records] using follows.faults⟩, rfl⟩

/-- Many steps record what one lenient reading among them records. -/
theorem Follows.after (follows : Follows f recorded s) (steps : List Step) :
    Follows f (recorded || Step.recordAny s.mode steps) (s.after steps) := by
  induction steps generalizing recorded s with
  | nil =>
    rw [Step.recordAny, Bool.or_false]
    exact follows
  | cons step steps ih =>
    obtain ⟨first, mode⟩ := follows.perform step
    have rest := ih first
    rw [mode, Bool.or_assoc] at rest
    exact rest

end Session

open Session

/-- Whatever was done with a session, it has the formula and the separator that it was started with,
and the faults of one lenient reading from the first such reading on, and none before. The next
lenient reading answers with the tree of the formula and leaves just these faults. The next strict
one answers like the strict reading of a new session and leaves the session as it was, although it
works on the same record of faults. -/
theorem read_after (t : Text) (steps : List Session.Step) :
    ((start t).after steps).formula.body = (Formula.ofText t).body ∧
      ((start t).after steps).formula.separator = (Formula.ofText t).separator ∧
      ((start t).after steps).faults =
        (if Step.recordAny .lenient steps then (start t).read.2.faults else []) ∧
      ((start t).after steps).read = (match ((start t).after steps).mode with
        | .lenient => (.ok (Formula.ofText t).tree,
            { (start t).after steps with faults := (start t).read.2.faults })
        | .strict => ((Formula.ofText t).tree?, (start t).after steps)) ∧
      ((start t).after steps).read = (((start t).after steps).readShared.1,
        { (start t).after steps with faults := ((start t).after steps).readShared.2 }) := by
  have follows := (follows_start t).after steps
  have fresh : (start t).read.2.faults = (Formula.ofText t).faults := rfl
  rw [Bool.false_or] at follows
  rw [fresh]
  refine ⟨?_, ?_, follows.faults, follows.read_eq, read_eq_readShared _⟩
  · rw [follows.formula]
  · rw [follows.formula]

end SheetFormula
