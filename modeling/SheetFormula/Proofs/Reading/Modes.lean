import SheetFormula.Formula.Session
import SheetFormula.Proofs.Reading.Transcript
import Mathlib.Data.List.Nodup
import Mathlib.Tactic.Set

/-!
# Lenient and strict readings

Both readings of a formula are replays of one transcript. The lenient one succeeds and keeps the
faults of the transcript, each once and in their order; the strict one ends at the first of them.
The main statement is `read_strict_eq_first_recorded`.

## Main definitions

* `Formula.transcript` — the transcript of reading a formula
* `Fault.addTo` — a fault recorded with those known before
-/

namespace SheetFormula

/-! ## Recorded faults -/

/-- The known faults with one more, unless it is among them. -/
def Fault.addTo (known : List Fault) (fault : Fault) : List Fault :=
  if fault ∈ known then known else known ++ [fault]

theorem Fault.mem_foldl_addTo (faults known : List Fault) (fault : Fault) :
    fault ∈ faults.foldl addTo known ↔ fault ∈ known ∨ fault ∈ faults := by
  induction faults generalizing known with
  | nil => simp
  | cons first others ih =>
    rw [List.foldl_cons, ih, addTo]
    split <;> grind

theorem Fault.nodup_foldl_addTo (faults : List Fault) {known : List Fault}
    (distinct : known.Nodup) : (faults.foldl addTo known).Nodup := by
  induction faults generalizing known with
  | nil => exact distinct
  | cons first others ih =>
    rw [List.foldl_cons]
    apply ih
    rw [addTo]
    split
    · exact distinct
    · next new => exact List.nodup_append.2 ⟨distinct, by simp, by grind⟩

/-- The first fault that is known stays the first. -/
theorem Fault.head?_foldl_addTo (faults : List Fault) (first : Fault) (known : List Fault) :
    (faults.foldl addTo (first :: known)).head? = some first := by
  induction faults generalizing known with
  | nil => rfl
  | cons fault others ih =>
    rw [List.foldl_cons, addTo]
    split
    · exact ih known
    · rw [List.cons_append]
      exact ih (known ++ [fault])

/-! ## Lenient and strict replays -/

namespace Formula

/-- The transcript of reading the formula. -/
def transcript (f : Formula) : Transcript Expression :=
  readBody Transcript.events f.separator f.body

theorem recoverable_transcript (f : Formula) : f.transcript.Recoverable :=
  recoverable_readBody f.separator f.body

/-- A lenient replay succeeds and adds the faults to those known before. -/
theorem replay_lenientEvents {α : Type} (t : Transcript α) (recoverable : t.Recoverable)
    (known : List Fault) :
    Id.run ((t.replay lenientEvents).run.run known) =
      (.ok t.value, t.faults.foldl Fault.addTo known) := by
  obtain ⟨value, faults⟩ := t
  induction faults generalizing known with
  | nil => rfl
  | cons fault others ih =>
    have rest : (⟨value, others⟩ : Transcript α).Recoverable :=
      fun other met => recoverable other (List.mem_cons_of_mem _ met)
    -- the first fault is recorded, and the others are replayed on the longer record
    rw [List.foldl_cons, ← ih (Fault.addTo known fault) rest]
    have first : fault.IsRecoverable := recoverable fault List.mem_cons_self
    cases fault with
    | missingArgumentList => exact absurd first id
    | unclosedParenthesis | unmatchedCloseParenthesis | unterminatedString => rfl

/-- A strict replay ends at the first fault. -/
theorem replay_strictEvents {α : Type} (t : Transcript α) :
    t.replay strictEvents =
      match t.faults with
      | [] => .ok t.value
      | fault :: _ => .error fault := by
  obtain ⟨value, faults⟩ := t
  cases faults with
  | nil => rfl
  | cons fault others => cases fault <;> rfl

theorem recover_eq (f : Formula) (known : List Fault) :
    f.recover known =
      (.ok f.transcript.value, f.transcript.faults.foldl Fault.addTo known) := by
  rw [recover, ← replay_readBody]
  exact replay_lenientEvents f.transcript f.recoverable_transcript known

theorem tree_eq (f : Formula) : f.tree = f.transcript.value := by
  rw [tree, recover_eq]

theorem faults_eq (f : Formula) : f.faults = f.transcript.faults.foldl Fault.addTo [] := by
  rw [faults, recover_eq]

theorem mem_faults (f : Formula) (fault : Fault) :
    fault ∈ f.faults ↔ fault ∈ f.transcript.faults := by
  rw [faults_eq, Fault.mem_foldl_addTo]
  simp

theorem nodup_faults (f : Formula) : f.faults.Nodup := by
  rw [faults_eq]
  exact Fault.nodup_foldl_addTo _ List.nodup_nil

theorem head?_faults (f : Formula) : f.faults.head? = f.transcript.faults.head? := by
  rw [faults_eq]
  cases f.transcript.faults with
  | nil => rfl
  | cons fault others => exact Fault.head?_foldl_addTo others fault []

theorem tree?_eq (f : Formula) :
    f.tree? =
      match f.transcript.faults with
      | [] => .ok f.transcript.value
      | fault :: _ => .error fault := by
  rw [tree?, ← replay_readBody]
  exact replay_strictEvents f.transcript

/-- A strict reading answers with the first recorded fault, or with the tree if there is none. -/
theorem tree?_eq_first_fault (f : Formula) :
    f.tree? =
      match f.faults with
      | [] => .ok f.tree
      | fault :: _ => .error fault := by
  have first := f.head?_faults
  rw [tree?_eq, tree_eq]
  cases inTranscript : f.transcript.faults with
  | nil =>
    rw [inTranscript, List.head?_nil, List.head?_eq_none_iff] at first
    rw [first]
  | cons fault others =>
    rw [inTranscript, List.head?_cons, List.head?_eq_some_iff] at first
    obtain ⟨later, recordedFirst⟩ := first
    rw [recordedFirst]

end Formula

/-- A lenient reading of any text succeeds with the expression of the formula and records no call
without an argument list. The strict reading has the same answer if nothing was recorded, and
otherwise answers with the fault recorded first. -/
theorem read_strict_eq_first_recorded (t : Text) :
    (Session.start t).read.1 = .ok (Formula.ofText t).tree ∧
      (∀ name position,
        .missingArgumentList name position ∉ (Session.start t).read.2.faults) ∧
      ((Session.start t).withMode .strict).read.1 =
        match (Session.start t).read.2.faults with
        | [] => .ok (Formula.ofText t).tree
        | fault :: _ => .error fault := by
  set f := Formula.ofText t with formula
  have answer : (Session.start t).read.1 = .ok f.tree := by
    rw [Formula.tree_eq, formula]
    exact congrArg Prod.fst (Formula.recover_eq (Formula.ofText t) [])
  have recorded : (Session.start t).read.2.faults = f.faults := rfl
  refine ⟨answer, ?_, ?_⟩
  · intro name position met
    rw [recorded, Formula.mem_faults] at met
    exact f.recoverable_transcript _ met
  · have strict : ((Session.start t).withMode .strict).read.1 = f.tree? := rfl
    rw [strict, recorded, f.tree?_eq_first_fault]

end SheetFormula
