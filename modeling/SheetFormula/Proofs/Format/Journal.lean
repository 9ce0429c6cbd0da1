import SheetFormula.Proofs.Format.Firm
import SheetFormula.Proofs.Format.Telling

/-!
# The journal of a beautified formula

Beautifying tells that it begins, then of every fault that reading recovers from, of every call that
is broken, and that it ends. A call is told of behind the calls inside it, since these are laid out
first. A journal of debug lines keeps all of that and nothing else, and what it keeps has no
influence on the result (`run_beautifyWith_journal`).

## Main definitions

* `Expression.placedNodes` — the nodes of a tree with their depths, each behind its parts
* `BrokenCall`, `brokenCall?` — calls whose layout breaks the line behind the parenthesis
* `Tells` — trees whose rendering tells of their broken calls only
* `Journal.numberedLines` — lines under consecutive numbers
* `Journal.Keeps` — what a journal keeps of an activity
-/

namespace SheetFormula

open Expression

/-! ## Broken calls -/

namespace Expression

mutual

/-- The node and all nodes below it, each behind its parts and with its depth. Calls and groups are
one depth above their parts. -/
def placedNodes (depth : Nat) : Expression → List (Nat × Expression)
  | .plain source parts => placedNodesOfEach depth parts ++ [(depth, .plain source parts)]
  | .group source parts => placedNodesOfEach (depth + 1) parts ++ [(depth, .group source parts)]
  | .call name source arguments =>
    placedNodesOfEach (depth + 1) arguments ++ [(depth, .call name source arguments)]
  | .operator op => [(depth, .operator op)]

/-- All nodes of several trees at a depth, one tree after the other. -/
def placedNodesOfEach (depth : Nat) : List Expression → List (Nat × Expression)
  | [] => []
  | e :: es => placedNodes depth e ++ placedNodesOfEach depth es

end

end Expression

/-- A call at a depth that has its arguments on lines of their own. -/
structure BrokenCall where
  name : Text
  arguments : Nat
  depth : Nat

/-- The line about a broken call, with its category. -/
def BrokenCall.line (b : BrokenCall) : String × String :=
  ("FORMAT", s!"{String.ofList b.name} wraps {b.arguments} argument(s) at depth {b.depth}")

/-- The node as a broken call, if in its layout a new line begins right behind the parenthesis. -/
def brokenCall? (style : Style) : Nat × Expression → Option BrokenCall
  | (depth, .call name source arguments) =>
    if (name ++ ['(', '\n']).isPrefixOf (layout style depth (.call name source arguments)) then
      some ⟨name, arguments.length, depth⟩
    else none
  | _ => none

/-- The broken calls of a tree at a depth, each behind those inside it. -/
def brokenCalls (style : Style) (depth : Nat) (e : Expression) : List BrokenCall :=
  (placedNodes depth e).filterMap (brokenCall? style)

/-- The broken calls of several trees at a depth. -/
def brokenCallsOfEach (style : Style) (depth : Nat) (es : List Expression) : List BrokenCall :=
  (placedNodesOfEach depth es).filterMap (brokenCall? style)

section Rendering

variable {style : Style} {depth : Nat} {e : Expression} {es : List Expression}

@[simp] theorem brokenCallsOfEach_nil : brokenCallsOfEach style depth [] = [] := by
  rw [brokenCallsOfEach, placedNodesOfEach]
  rfl

theorem brokenCallsOfEach_cons : brokenCallsOfEach style depth (e :: es) =
    brokenCalls style depth e ++ brokenCallsOfEach style depth es := by
  rw [brokenCallsOfEach, placedNodesOfEach, List.filterMap_append]
  rfl

theorem brokenCalls_plain {source : Text} : brokenCalls style depth (.plain source es) =
    brokenCallsOfEach style depth es := by
  rw [brokenCalls, placedNodes, List.filterMap_append]
  exact List.append_nil _

theorem brokenCalls_group {source : Text} : brokenCalls style depth (.group source es) =
    brokenCallsOfEach style (depth + 1) es := by
  rw [brokenCalls, placedNodes, List.filterMap_append]
  exact List.append_nil _

theorem brokenCalls_call {name source : Text} : brokenCalls style depth (.call name source es) =
    brokenCallsOfEach style (depth + 1) es ++
      (brokenCall? style (depth, .call name source es)).toList := by
  rw [brokenCalls, placedNodes, List.filterMap_append]
  rfl

theorem isPrefixOf_lineBreak (name t : Text) :
    (name ++ ['(', '\n']).isPrefixOf (name ++ '(' :: t) = (t.head? == some '\n') := by
  rw [Bool.eq_iff_iff, List.isPrefixOf_iff_prefix, List.prefix_append_right_inj,
    List.prefix_cons_inj, List.singleton_prefix_iff_head?_eq_some, beq_iff_eq]

/-- On one line, no line begins behind the parenthesis unless an argument begins with one. -/
theorem head?_joined {ts : List Text} (head : ∀ t ∈ ts, t.head? ≠ some '\n') :
    (Text.joined [';', ' '] ts ++ [')']).head? ≠ some '\n' := by
  match ts with
  | [] => decide
  | [t] =>
    have first := head t List.mem_cons_self
    cases t with
    | nil => decide
    | cons c t => exact first
  | t :: u :: ts =>
    have first := head t List.mem_cons_self
    cases t with
    | nil => exact fun semicolon => absurd (Option.some.inj semicolon) (by decide)
    | cons c t => exact first

/-- A call is broken unless it has no arguments or they fit on one line. -/
theorem brokenCall?_call {name : Text} (source : Text) (known : name ∈ FunctionName.known)
    (head : ∀ e ∈ es, (layout style (depth + 1) e).head? ≠ some '\n') :
    brokenCall? style (depth, .call name source es) =
      if es.isEmpty then none
      else if fitsOneLine style es (layoutEach style (depth + 1) es) then none
      else some ⟨name, es.length, depth⟩ := by
  have heads : ∀ t ∈ layoutEach style (depth + 1) es, t.head? ≠ some '\n' := by
    rw [layoutEach_eq_map]
    exact List.forall_mem_map.2 head
  rw [brokenCall?, layout_call known, callText]
  split
  · rw [callInline, isPrefixOf_lineBreak]
    rfl
  · split
    · rw [callInline, isPrefixOf_lineBreak, if_neg]
      rw [beq_iff_eq]
      exact head?_joined heads
    · rw [callBroken, isPrefixOf_lineBreak]
      rfl

end Rendering

/-! ## Rendering tells of the broken calls -/

section Telling

variable {m : Type → Type} [Monad m] [LawfulMonad m] (sink : Sink m) {style : Style}
  {es : List Expression}

/-- Tells of broken calls, one after the other. -/
def writeBrokenCalls (bs : List BrokenCall) : m Unit :=
  bs.forM fun b => writeBroken sink b.name b.arguments b.depth

theorem writeBrokenCalls_append (bs cs : List BrokenCall) :
    writeBrokenCalls sink (bs ++ cs) = (do writeBrokenCalls sink bs; writeBrokenCalls sink cs) :=
  List.forM_append

variable (style) in
/-- Rendering the tree tells of its broken calls only, and gives its layout. -/
def Tells (e : Expression) : Prop :=
  ∀ depth, render (.lenient sink) style depth e = (do
    writeBrokenCalls sink (brokenCalls style depth e)
    pure (layout style depth e))

theorem renderEach_of_tells (each : ∀ e ∈ es, Tells sink style e) (depth : Nat) :
    renderEach (.lenient sink) style depth es = (do
      writeBrokenCalls sink (brokenCallsOfEach style depth es)
      pure (layoutEach style depth es)) := by
  induction es with
  | nil =>
    rw [renderEach, layoutEach_eq_map, brokenCallsOfEach_nil]
    simp [writeBrokenCalls]
  | cons e es ih =>
    obtain ⟨first, others⟩ := List.forall_mem_cons.1 each
    rw [renderEach, first depth, ih others, brokenCallsOfEach_cons, writeBrokenCalls_append,
      layoutEach_eq_map, layoutEach_eq_map]
    simp only [bind_assoc, pure_bind, List.map_cons]

theorem renderSequence_of_tells (each : ∀ e ∈ es, Tells sink style e) (depth : Nat) :
    renderSequence (.lenient sink) style depth es = (do
      writeBrokenCalls sink (brokenCallsOfEach style depth es)
      pure (layoutSequence style depth es)) := by
  induction es with
  | nil =>
    rw [renderSequence, layoutSequence_nil, brokenCallsOfEach_nil]
    simp [writeBrokenCalls]
  | cons e es ih =>
    obtain ⟨first, others⟩ := List.forall_mem_cons.1 each
    rw [renderSequence, first depth, ih others, brokenCallsOfEach_cons, writeBrokenCalls_append,
      layoutSequence_cons]
    simp only [bind_assoc, pure_bind]

theorem tells_operator (op : Operator) : Tells sink style (.operator op) := by
  intro depth
  have none : brokenCalls style depth (.operator op) = [] := by
    rw [brokenCalls, placedNodes]
    rfl
  rw [render, layout_operator, none]
  simp [writeBrokenCalls]

theorem tells_plain (source : Text) (each : ∀ e ∈ es, Tells sink style e) :
    Tells sink style (.plain source es) := by
  intro depth
  rw [render, layout_plain, brokenCalls_plain]
  split
  · next empty =>
    rw [List.isEmpty_iff.1 empty, brokenCallsOfEach_nil]
    simp [writeBrokenCalls]
  · exact renderSequence_of_tells sink each depth

theorem tells_leaf (source : Text) : Tells sink style (.plain source []) :=
  tells_plain sink source fun _ met => absurd met List.not_mem_nil

theorem tells_group (source : Text) (each : ∀ e ∈ es, Tells sink style e) :
    Tells sink style (.group source es) := by
  intro depth
  rw [render, renderSequence_of_tells sink each, layout_group, brokenCalls_group]
  simp only [bind_assoc, pure_bind, renderGroup, reportIndents_lenient, ite_self]

theorem tells_call {name : Text} (source : Text) (known : name ∈ FunctionName.known)
    (each : ∀ e ∈ es, Tells sink style e)
    (head : ∀ depth, ∀ e ∈ es, (layout style depth e).head? ≠ some '\n') :
    Tells sink style (.call name source es) := by
  intro depth
  rw [render, called_lenient, nameFault?_of_mem_known known, brokenCalls_call,
    writeBrokenCalls_append, brokenCall?_call source known (head (depth + 1)), layout_call known,
    callText]
  simp only [renderEach_of_tells sink each, bind_assoc, pure_bind, renderCall]
  split
  · simp [writeBrokenCalls]
  · split
    · simp [writeBrokenCalls]
    · simp [writeBrokenCalls, reportIndents_lenient, broken_lenient]

end Telling

section Trees

variable {m : Type → Type} [Monad m] (sink : Sink m) (style : Style) {P : Text → Prop}

namespace Expression

mutual

/-- A part that is read from a formula tells of its broken calls only. -/
theorem InRow.tells [LawfulMonad m] {e : Expression} (trims : ∀ t, P t → Text.trim t = t) :
    InRow P e → Tells sink style e
  | .leaf _ _ => tells_leaf sink _
  | .group row => tells_group sink _ (row.tells trims)
  | .call known each =>
    tells_call sink _ known (fun a met => (each a met).tells trims) fun depth a met lineBreak =>
      absurd ((each a met).head?_layout trims lineBreak).2 (by decide)
  | .operator op => tells_operator sink op

theorem Row.tells [LawfulMonad m] {es : List Expression} (trims : ∀ t, P t → Text.trim t = t) :
    Row P es → ∀ e ∈ es, Tells sink style e
  | .nil => fun _ met => absurd met List.not_mem_nil
  | .cons first _ behind => List.forall_mem_cons.2 ⟨first.tells trims, behind.tells trims⟩

theorem IsArgument.tells [LawfulMonad m] {e : Expression} (trims : ∀ t, P t → Text.trim t = t) :
    IsArgument P e → Tells sink style e
  | .nothing => tells_leaf sink _
  | .single part => part.tells trims
  | .several _ row => tells_plain sink _ (row.tells trims)

end

end Expression

variable [LawfulMonad m]

theorem Formula.tells_tree (f : Formula) : Tells sink style f.tree := by
  have trims : ∀ t, Text.IsToken t → Text.trim t = t := fun t token => token.trimmed
  have row := f.row_parts.tells sink style trims
  have behind := f.tail_strayLeaf
  rw [tree_parts]
  generalize Mark.strayLeaf _ = tail at behind
  refine tells_plain sink _ (List.forall_mem_append.2 ⟨row, ?_⟩)
  cases behind with
  | none => exact fun _ met => absurd met List.not_mem_nil
  | stray => exact List.forall_mem_singleton.2 (tells_leaf sink _)

/-- Beautifying tells that it begins, of the faults, of the broken calls, and that it ends. -/
theorem beautifyWith_eq (narrow : style.indentSize ≤ widestIndent) (t : Text) :
    beautifyWith sink style t = (do
      sink.trace "BEAUTIFY" "ENTER" "beautify" s!"{t.length} chars"
      recordFaults sink (Formula.ofText t).faults
      writeBrokenCalls sink (brokenCalls style 0 (Formula.ofText t).tree)
      sink.trace "BEAUTIFY" "EXIT" "beautify" s!"{(beautify style t).lineCount} lines"
      pure (beautify style t)) := by
  have noFault : style.fault? = none := if_neg (Nat.not_lt.2 narrow)
  have rendered := (Formula.ofText t).tells_tree sink style 0
  simp only [beautifyWith, beautifyBy, readWith, formattedWith, noFault, rendered, bind_assoc,
    pure_bind, map_bind, map_pure, beautify_eq narrow]

end Trees

/-! ## What a journal keeps -/

namespace Journal

/-- Lines with their categories under the numbers behind `count`. -/
def numberedLines (count : Nat) : List (String × String) → List Line
  | [] => []
  | (category, message) :: others =>
    ⟨.debug, category, numbered (count + 1) .debug category message⟩ ::
      numberedLines (count + 1) others

theorem numberedLines_append (count : Nat) (ls ks : List (String × String)) :
    numberedLines count (ls ++ ks) =
      numberedLines count ls ++ numberedLines (count + ls.length) ks := by
  induction ls generalizing count with
  | nil => rfl
  | cons l ls ih =>
    rw [List.cons_append, numberedLines, numberedLines, ih, List.length_cons, List.cons_append,
      Nat.add_assoc, Nat.add_comm 1]

/-- The journal with further lines, some of which took numbers. -/
def extend (j : Journal) (numbers : Nat) (more : List Line) : Journal :=
  ⟨j.limit, j.count + numbers, j.lines ++ more⟩

/-- The activity has a value and takes numbers for the lines that it adds. Nothing of that is kept
unless debug lines are. -/
def Keeps {α : Type} (action : StateM Journal α) (value : α) (numbers : Nat)
    (lines : Nat → List Line) : Prop :=
  ∀ j : Journal, action.run j =
    (value, if j.keeps .debug then j.extend numbers (lines j.count) else j)

theorem keeps_pure {α : Type} (value : α) : Keeps (pure value) value 0 fun _ => [] := by
  intro j
  have same : j.extend 0 [] = j := by simp only [extend, Nat.add_zero, List.append_nil]
  rw [same, ite_self]
  rfl

theorem Keeps.bind {α : Type} {first : StateM Journal Unit} {second : StateM Journal α} {value : α}
    {n k : Nat} {ls ks : Nat → List Line} (keepsFirst : Keeps first () n ls)
    (keepsSecond : Keeps second value k ks) :
    Keeps (do first; second) value (n + k) fun count => ls count ++ ks (count + n) := by
  intro j
  have run : (do first; second : StateM Journal α).run j = second.run (first.run j).2 := rfl
  rw [run, keepsFirst j, keepsSecond]
  cases keeps : j.keeps .debug with
  | false => simp [keeps]
  | true =>
    have still : (j.extend n (ls j.count)).keeps .debug = true := keeps
    simp only [if_true, still]
    simp only [extend, Nat.add_assoc, List.append_assoc]

theorem keeps_record (category message : String) :
    Keeps (Sink.journal.record .debug category message) () 0
      fun _ => [⟨.debug, category, message⟩] := by
  intro j
  show ((), j.record .debug category message) = _
  rw [record]
  rfl

theorem keeps_write (category message : String) :
    Keeps (Sink.journal.write .debug category message) () 1
      fun count => numberedLines count [(category, message)] := by
  intro j
  show ((), j.write .debug category message) = _
  rw [write]
  cases keeps : j.keeps .debug with
  | false => rfl
  | true =>
    have still : j.takeNumber.keeps .debug = true := keeps
    rw [if_pos rfl, record, if_pos still]
    rfl

theorem keeps_recordFaults (faults : List Fault) :
    Keeps (recordFaults .journal faults) () 0 fun _ =>
      faults.map fun fault => ⟨.debug, "PARSE", s!"Recovered from: {fault.message}"⟩ := by
  induction faults with
  | nil => exact keeps_pure ()
  | cons fault faults ih => exact (keeps_record _ _).bind ih

theorem keeps_writeBrokenCalls (bs : List BrokenCall) :
    Keeps (writeBrokenCalls .journal bs) () bs.length fun count =>
      numberedLines count (bs.map BrokenCall.line) := by
  induction bs with
  | nil => exact keeps_pure ()
  | cons b bs ih =>
    rw [List.length_cons, Nat.add_comm]
    exact (keeps_write _ _).bind ih

end Journal

theorem traceMessage_count (marker unit : String) (count : Nat) :
    Journal.traceMessage marker "beautify" (toString count ++ unit) =
      marker ++ " beautify " ++ toString count ++ unit := by
  have detail : (toString count ++ unit).isEmpty = false := by simp
  have gap : " " ++ "beautify" ++ " " = " beautify " := by decide
  rw [Journal.traceMessage, detail, if_neg Bool.false_ne_true]
  show marker ++ " " ++ "beautify" ++ " " ++ (toString count ++ unit) = _
  simp only [← gap, String.append_assoc]

/-- A journal of debug lines gets the lines on the beginning, the faults, the broken calls and the
end, and those of formatting under consecutive numbers; any other journal gets none. The result is
the same in all of them. The faults are those that a reader tells of on the way. -/
theorem run_beautifyWith_journal (style : Style) (narrow : style.indentSize ≤ widestIndent)
    (t : Text) (j : Journal) :
    (beautifyWith .journal style t).run j = (beautify style t,
      if j.keeps .debug then
        ⟨j.limit, j.count + (brokenCalls style 0 (Formula.ofText t).tree).length + 2,
          j.lines ++
            (Journal.numberedLines j.count [("BEAUTIFY", s!"ENTER beautify {t.length} chars")] ++
              ((Session.start t).read.2.faults.map fun fault =>
                ⟨.debug, "PARSE", s!"Recovered from: {fault.message}"⟩) ++
              Journal.numberedLines (j.count + 1)
                ((brokenCalls style 0 (Formula.ofText t).tree).map BrokenCall.line ++
                  [("BEAUTIFY", s!"EXIT beautify {(beautify style t).lineCount} lines")]))⟩
      else j) ∧
    readWith .journal t = readTelling .journal t := by
  refine ⟨?_, readWith_eq_readTelling .journal t⟩
  have enter : Journal.traceMessage "ENTER" "beautify" s!"{t.length} chars" =
      s!"ENTER beautify {t.length} chars" := by
    have front : "ENTER" ++ " beautify " = "ENTER beautify " := by decide
    have message := traceMessage_count "ENTER" " chars" t.length
    rwa [front] at message
  have exit : Journal.traceMessage "EXIT" "beautify" s!"{(beautify style t).lineCount} lines" =
      s!"EXIT beautify {(beautify style t).lineCount} lines" := by
    have front : "EXIT" ++ " beautify " = "EXIT beautify " := by decide
    have message := traceMessage_count "EXIT" " lines" (beautify style t).lineCount
    rwa [front] at message
  have told := (Journal.keeps_write "BEAUTIFY" s!"ENTER beautify {t.length} chars").bind
    ((Journal.keeps_recordFaults (Formula.ofText t).faults).bind
      ((Journal.keeps_writeBrokenCalls (brokenCalls style 0 (Formula.ofText t).tree)).bind
        ((Journal.keeps_write "BEAUTIFY"
          s!"EXIT beautify {(beautify style t).lineCount} lines").bind
            (Journal.keeps_pure (beautify style t)))))
  have recorded : (Session.start t).read.2.faults = (Formula.ofText t).faults := rfl
  rw [beautifyWith_eq .journal style narrow]
  simp only [Sink.trace, enter, exit]
  rw [told j, recorded]
  have count (n : Nat) : j.count + (1 + (n + 1)) = j.count + n + 2 := by omega
  simp only [Journal.extend, Journal.numberedLines_append, List.length_map, List.append_assoc,
    List.append_nil, Nat.add_zero, Nat.zero_add, count]

/-- A group holds a call with another call inside it, and the outermost call is never closed. -/
theorem run_beautifyWith_journal_nested :
    ((beautifyWith .journal .standard "=IF((SUM(MAX(1,2),3)),4".toList).run
      ⟨some .debug, 6, []⟩).2 = ⟨some .debug, 10, [
        ⟨.debug, "BEAUTIFY", "7|D|BEAUTIFY|ENTER beautify 23 chars"⟩,
        ⟨.debug, "PARSE", "Recovered from: Unclosed parenthesis opened at position 2"⟩,
        ⟨.debug, "FORMAT", "8|D|FORMAT|SUM wraps 2 argument(s) at depth 2"⟩,
        ⟨.debug, "FORMAT", "9|D|FORMAT|IF wraps 2 argument(s) at depth 0"⟩,
        ⟨.debug, "BEAUTIFY", "10|D|BEAUTIFY|EXIT beautify 9 lines"⟩]⟩ := by
  rw [(run_beautifyWith_journal .standard (by decide) _ _).1]
  decide +kernel

end SheetFormula
