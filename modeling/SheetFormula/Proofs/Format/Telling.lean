import SheetFormula.Format.Beautify
import SheetFormula.Proofs.Reading.Modes

/-!
# Faults told on the way

A reader may tell of each fault at the moment when it records it, with the faults known so far at
hand. It tells the same as one that reads first, and then goes through the faults that were recorded
(`readWith_eq_readTelling`).

## Main definitions

* `tellingEvents`, `readTelling` — a reader that tells of its faults on the way
-/

namespace SheetFormula

section Telling

variable {m : Type → Type} [Monad m] (sink : Sink m)

/-- Tells of a fault and records it, unless it is known. -/
def tellFault (fault : Fault) : StateT (List Fault) m Unit := do
  if fault ∈ (← get) then pure ()
  else do
    sink.record .debug "PARSE" s!"Recovered from: {fault.message}"
    modify (· ++ [fault])

/-- Faults are told and recorded, and a call without an argument list ends the reading. -/
def tellingEvents : ReadEvents (ExceptT Fault (StateT (List Fault) m)) where
  faulty fault := ExceptT.lift (tellFault sink fault)
  unopened name position := throw (.missingArgumentList name position)

/-- The expression of a formula, with a line for every fault on the way; the body as one leaf if it
cannot be read. -/
def readTelling (t : Text) : m Expression := do
  let f := Formula.ofText t
  match (← (readBody (tellingEvents sink) f.separator f.body).run.run []).1 with
  | .ok tree => pure tree
  | .error fault => do
    sink.record .error "PARSE" s!"Parse failed, keeping formula as raw text: {fault.message}"
    pure (.leaf f.body)

variable [LawfulMonad m]

/-- A telling replay tells of the faults that it adds to those known before. -/
theorem replay_tellingEvents {α : Type} (t : Transcript α) (recoverable : t.Recoverable)
    (known : List Fault) : ∃ more, t.faults.foldl Fault.addTo known = known ++ more ∧
      (t.replay (tellingEvents sink)).run.run known = (do
        recordFaults sink more
        pure (.ok t.value, known ++ more)) := by
  obtain ⟨value, faults⟩ := t
  induction faults generalizing known with
  | nil =>
    refine ⟨[], (List.append_nil known).symm, ?_⟩
    simp [Transcript.replay, recordFaults]
  | cons fault others ih =>
    have rest : (⟨value, others⟩ : Transcript α).Recoverable :=
      fun other met => recoverable other (List.mem_cons_of_mem _ met)
    have first : fault.IsRecoverable := recoverable fault List.mem_cons_self
    have reacts : Transcript.react (tellingEvents sink) fault =
        ExceptT.lift (tellFault sink fault) := by
      cases fault with
      | missingArgumentList => exact absurd first id
      | unclosedParenthesis | unmatchedCloseParenthesis | unterminatedString => rfl
    have step : ((⟨value, fault :: others⟩ : Transcript α).replay
        (tellingEvents sink)).run.run known = (do
          let told ← (tellFault sink fault).run known
          ((⟨value, others⟩ : Transcript α).replay (tellingEvents sink)).run.run told.2) := by
      simp [Transcript.replay, reacts]
    by_cases isKnown : fault ∈ known
    · obtain ⟨more, whole, run⟩ := ih known rest
      refine ⟨more, ?_, ?_⟩
      · rw [List.foldl_cons, Fault.addTo, if_pos isKnown, whole]
      · rw [step, ← run]
        simp [tellFault, isKnown]
    · obtain ⟨more, whole, run⟩ := ih (known ++ [fault]) rest
      refine ⟨fault :: more, ?_, ?_⟩
      · rw [List.foldl_cons, Fault.addTo, if_neg isKnown, whole, List.append_assoc,
          List.singleton_append]
      · rw [step]
        simp [tellFault, isKnown, run, recordFaults]

/-- Telling of the faults on the way and telling of the recorded ones behind are the same. -/
theorem readWith_eq_readTelling (t : Text) : readWith sink t = readTelling sink t := by
  have recoverable := (Formula.ofText t).recoverable_transcript
  obtain ⟨more, recorded, run⟩ := replay_tellingEvents sink _ recoverable []
  rw [← Formula.faults_eq, List.nil_append] at recorded
  have whole : (Formula.ofText t).transcript.replay (tellingEvents sink) =
      readBody (tellingEvents sink) (Formula.ofText t).separator (Formula.ofText t).body :=
    replay_readBody _ _ _
  rw [readWith, readTelling, ← whole, run, recorded, Formula.tree_eq]
  simp only [bind_assoc, pure_bind]

end Telling

end SheetFormula
