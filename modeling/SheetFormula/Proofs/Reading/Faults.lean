import SheetFormula.Proofs.Reading.Modes
import SheetFormula.Proofs.Reading.Steps
import Mathlib.Tactic.Tauto

/-!
# The faults of a formula

One pass over the text of a formula, with the positions of open parentheses on a stack, tells all
its faults; the readers find the same ones although they cut the text at parentheses and
separators and read the parts again (`faults_perm_scan`).

## Main definitions

* `Text.scanFaults` — the pass over a text
* `Piece.Balanced` — pieces whose parentheses are all paired
* `Mark.leftOpen`, `Mark.unclosedLiterals` — what the pass finds, told of marks
-/

namespace SheetFormula

/-! ## One pass over a text -/

/-- The faults of a text from `position` on, in front of which the parentheses at the positions
`opened` are open, the innermost first. Literals are passed over; the pass ends at a `)` without a
partner and forgets all else. -/
def Text.scanFaults (position : Nat) (opened : List Nat) : Text → List Fault
  | [] => opened.map .unclosedParenthesis
  | c :: t =>
    if c = '"' then
      if (literalTail t).closed then
        scanFaults (position + 1 + (literalTail t).text.length) opened (literalTail t).rest
      else .unterminatedString position :: opened.map .unclosedParenthesis
    else if c = '(' then scanFaults (position + 1) (position :: opened) t
    else if c = ')' then
      match opened with
      | [] => [.unmatchedCloseParenthesis position]
      | _ :: outer => scanFaults (position + 1) outer t
    else scanFaults (position + 1) opened t
termination_by t => t.length
decreasing_by
  · have := length_rest_literalTail_le t
    rw [List.length_cons]
    omega
  all_goals
    rw [List.length_cons]
    omega

/-- Every parenthesis among the pieces has its partner, given `depth` open ones in front. -/
def Piece.Balanced (depth : Nat) : List Piece → Prop
  | [] => depth = 0
  | p :: ps =>
    if p = .char '(' then Balanced (depth + 1) ps
    else if p = .char ')' then 0 < depth ∧ Balanced (depth - 1) ps
    else Balanced depth ps

/-- The pass finds nothing exactly where all literals are closed and all parentheses paired. -/
theorem Text.scanFaults_eq_nil_iff (t : Text) (position : Nat) (opened : List Nat) :
    scanFaults position opened t = [] ↔
      t.LiteralsClosed ∧ Piece.Balanced opened.length (pieces t) := by
  unfold LiteralsClosed
  fun_induction scanFaults position opened t with
  | case1 position opened => simp [pieces, Piece.Balanced]
  | case2 position opened t closed ih =>
    rw [ih, pieces, if_pos rfl]
    simp [closed, Piece.isUnclosed, Piece.Balanced]
  | case3 position opened t unclosed =>
    rw [pieces, if_pos rfl]
    simp [unclosed, Piece.isUnclosed]
  | case4 position opened t _ ih =>
    rw [ih, pieces, if_neg (by decide)]
    simp [Piece.isUnclosed, Piece.Balanced]
  | case5 position t =>
    rw [pieces, if_neg (by decide)]
    simp [Piece.Balanced]
  | case6 position t inner outer _ _ ih =>
    rw [ih, pieces, if_neg (by decide)]
    simp [Piece.isUnclosed, Piece.Balanced]
  | case7 position opened c t noQuote noOpening noClosing ih =>
    rw [ih, pieces, if_neg noQuote]
    simp [Piece.isUnclosed, Piece.Balanced, noOpening, noClosing]

/-! ## The same pass over marks -/

namespace Mark

/-- The positions of open parentheses behind a mark, the innermost first. -/
def stackBehind (opened : List Nat) (m : Mark) : List Nat :=
  if m.char? = some '(' then m.position :: opened
  else if m.char? = some ')' then opened.tail
  else opened

/-- The positions of the parentheses that marks leave open, the innermost first. -/
def leftOpen (opened : List Nat) (ms : List Mark) : List Nat :=
  ms.foldl stackBehind opened

/-- The positions of the unclosed literals among the marks. -/
def unclosedLiterals (ms : List Mark) : List Nat :=
  (ms.filter isUnclosed).map position

/-- Unclosed literals and parentheses left open, as faults. -/
def faultsOf (opened : List Nat) (ms : List Mark) : List Fault :=
  (unclosedLiterals ms).map .unterminatedString ++
    (leftOpen opened ms).map .unclosedParenthesis

variable {opened : List Nat} {m : Mark} {ms ns : List Mark}

@[simp] theorem leftOpen_cons :
    leftOpen opened (m :: ms) = leftOpen (stackBehind opened m) ms := rfl

theorem leftOpen_append : leftOpen opened (ms ++ ns) = leftOpen (leftOpen opened ms) ns :=
  List.foldl_append

theorem unclosedLiterals_append :
    unclosedLiterals (ms ++ ns) = unclosedLiterals ms ++ unclosedLiterals ns := by
  simp [unclosedLiterals]

theorem unclosedLiterals_cons_closed (closed : m.isUnclosed = false) :
    unclosedLiterals (m :: ms) = unclosedLiterals ms := by
  simp [unclosedLiterals, closed]

/-- Only literals are unclosed. -/
theorem isUnclosed_of_char? {c : Char} (isChar : m.char? = some c) : m.isUnclosed = false := by
  obtain ⟨position, isLayout, piece⟩ := m
  cases piece with
  | char => rfl
  | literal => cases isChar

theorem stackBehind_other (noOpening : m.char? ≠ some '(') (noClosing : m.char? ≠ some ')') :
    stackBehind opened m = opened := by
  rw [stackBehind, if_neg noOpening, if_neg noClosing]

theorem length_stackBehind (opened : List Nat) (m : Mark) :
    (stackBehind opened m).length = m.depthAfter opened.length := by
  unfold stackBehind depthAfter
  split
  · rfl
  · split
    · rw [List.length_tail]
    · rfl

theorem length_leftOpen (opened : List Nat) (ms : List Mark) :
    (leftOpen opened ms).length = openAfter opened.length ms := by
  induction ms generalizing opened with
  | nil => rfl
  | cons m ms ih => rw [leftOpen_cons, ih, length_stackBehind, openAfter_cons]

/-- Outer parentheses stay on the stack below a mark that closes none of them. -/
theorem stackBehind_outer (outer : List Nat)
    (enclosed : ¬(opened.length = 0 ∧ m.char? = some ')')) :
    stackBehind (opened ++ outer) m = stackBehind opened m ++ outer := by
  unfold stackBehind
  split
  · rfl
  · split
    · next closing =>
      have : opened ≠ [] := fun none => enclosed ⟨by rw [none]; rfl, closing⟩
      rw [List.tail_append_of_ne_nil this]
    · rfl

theorem leftOpen_outer (outer : List Nat) (enclosed : Enclosed opened.length ms) :
    leftOpen (opened ++ outer) ms = leftOpen opened ms ++ outer := by
  induction ms generalizing opened with
  | nil => rfl
  | cons m ms ih =>
    obtain ⟨first, rest⟩ := enclosed_cons.1 enclosed
    rw [leftOpen_cons, leftOpen_cons, stackBehind_outer outer first,
      ih (length_stackBehind opened m ▸ rest)]

/-- Balanced marks leave nothing open. -/
theorem leftOpen_eq_nil (balanced : openAfter 0 ms = 0) : leftOpen [] ms = [] :=
  List.eq_nil_of_length_eq_zero ((length_leftOpen [] ms).trans balanced)

/-! ### Trimmed marks and parts -/

theorem leftOpen_layout (genuine : AllGenuine ms) (layout : ∀ m ∈ ms, m.isLayout = true) :
    leftOpen opened ms = opened ∧ unclosedLiterals ms = [] := by
  induction ms with
  | nil => exact ⟨rfl, rfl⟩
  | cons m ms ih =>
    have isLayout := layout m List.mem_cons_self
    have rest := ih genuine.tail fun other met => layout other (List.mem_cons_of_mem _ met)
    rw [leftOpen_cons, unclosedLiterals_cons_closed (genuine.head.isUnclosed_of_layout isLayout),
      stackBehind_other (genuine.head.char?_ne_of_layout isLayout (by decide) (by decide))
        (genuine.head.char?_ne_of_layout isLayout (by decide) (by decide))]
    exact rest

theorem faultsOf_map_trimUnclosed : faultsOf opened (ms.map trimUnclosed) = faultsOf opened ms := by
  have literals : unclosedLiterals (ms.map trimUnclosed) = unclosedLiterals ms := by
    simp [unclosedLiterals, List.filter_map, Function.comp_def]
  have stack : leftOpen opened (ms.map trimUnclosed) = leftOpen opened ms := by
    rw [leftOpen, leftOpen, List.foldl_map]
    congr
    funext stack m
    rw [stackBehind, stackBehind, char?_trimUnclosed, position_trimUnclosed]
  rw [faultsOf, faultsOf, literals, stack]

/-- Trimming keeps all faults. -/
theorem faultsOf_trimmed (genuine : AllGenuine ms) :
    faultsOf opened (trimmed ms) = faultsOf opened ms := by
  obtain ⟨lead, trail, whole, inLead, inTrail⟩ := trimEnds_split isLayout ms
  rw [trimmed, faultsOf_map_trimUnclosed]
  generalize trimEnds isLayout ms = core at whole
  subst whole
  obtain ⟨genuineFront, genuineTrail⟩ := allGenuine_append.1 genuine
  have front : leftOpen opened lead = opened ∧ unclosedLiterals lead = [] :=
    leftOpen_layout (allGenuine_append.1 genuineFront).1 inLead
  have behind : leftOpen (leftOpen opened core) trail = leftOpen opened core ∧
      unclosedLiterals trail = [] := leftOpen_layout genuineTrail inTrail
  simp only [faultsOf, unclosedLiterals_append, leftOpen_append, front, behind, List.nil_append,
    List.append_nil]

/-- Parts between separators have the faults of the whole. -/
theorem Divides.mem_faultsOf {separator : Separator} {depth : Nat} {parts : List (List Mark)}
    (divides : Divides separator depth ms parts) {fault : Fault} (atStart : depth = 0) :
    fault ∈ faultsOf [] ms ↔ ∃ part ∈ parts, fault ∈ faultsOf [] part := by
  induction divides with
  | last => simp
  | @next depth front mark ms others enclosed balanced _ isSeparator _ ih =>
    subst atStart
    -- no parenthesis is open at a separator, so each part begins with an empty stack
    have empty : leftOpen [] front = [] := leftOpen_eq_nil balanced
    have same : stackBehind [] mark = [] := by
      apply stackBehind_other <;> rw [isSeparator] <;> cases separator <;> decide
    have closed := isUnclosed_of_char? isSeparator
    have whole : faultsOf [] (front ++ mark :: ms) =
        (unclosedLiterals front).map .unterminatedString ++ faultsOf [] ms := by
      rw [faultsOf, faultsOf, unclosedLiterals_append, unclosedLiterals_cons_closed closed,
        leftOpen_append, empty, leftOpen_cons, same, List.map_append, List.append_assoc]
    have first : faultsOf [] front = (unclosedLiterals front).map .unterminatedString := by
      rw [faultsOf, empty, List.map_nil, List.append_nil]
    rw [whole, List.mem_append, ih rfl, ← first]
    simp

/-- Blank arguments are left out, and have no faults. -/
theorem mem_faultsOf_argumentParts {separator : Separator} (readable : Readable ms)
    {fault : Fault} :
    fault ∈ faultsOf [] ms ↔ ∃ part ∈ argumentParts separator ms, fault ∈ faultsOf [] part := by
  rcases argumentParts_eq_nil_or_divides separator readable.enclosed with ⟨none, layout⟩ | divides
  · obtain ⟨stack, literals⟩ : leftOpen [] ms = [] ∧ unclosedLiterals ms = [] :=
      leftOpen_layout readable.genuine layout
    simp [none, faultsOf, stack, literals]
  · exact divides.mem_faultsOf rfl

end Mark

/-! ## The faults that reading reports -/

open Mark

variable {separator : Separator}

theorem mem_faults_reportLiteral {closed : Bool} {position : Nat} {fault : Fault} :
    fault ∈ (reportLiteral Transcript.events closed position).faults ↔
      closed = false ∧ fault = .unterminatedString position := by
  cases closed <;> simp [reportLiteral]

theorem mem_faults_reportUnclosedParenthesis {opening : Mark} {tail : List Mark} {fault : Fault} :
    fault ∈ (reportUnclosedParenthesis Transcript.events opening tail).faults ↔
      tail = [] ∧ fault = .unclosedParenthesis opening.position := by
  cases tail <;> simp [reportUnclosedParenthesis]

/-- The literal reported behind a function name is one of those reported by the arguments. -/
theorem mem_faultsOf_of_reportUnclosedLiteral {ms : List Mark} {fault : Fault}
    (reported : fault ∈ (reportUnclosedLiteral Transcript.events ms).faults) :
    fault ∈ faultsOf [] ms := by
  unfold reportUnclosedLiteral at reported
  split at reported
  · next mark found =>
    rw [Transcript.faults_faulty, List.mem_singleton] at reported
    rw [reported, faultsOf, List.mem_append]
    refine .inl (List.mem_map_of_mem (List.mem_map_of_mem ?_))
    exact List.mem_filter.2 ⟨List.mem_of_find?_eq_some found, List.find?_some found⟩
  · cases reported

/-- An opening parenthesis without a partner, or the faults on both sides of its partner. -/
theorem mem_faultsOf_opening {opening : Mark} {inside tail : List Mark} {fault : Fault}
    (isOpening : opening.char? = some '(') (readable : Readable inside)
    (closes : Closes inside tail) :
    fault ∈ faultsOf [] (opening :: (inside ++ tail)) ↔
      fault ∈ faultsOf [] inside ∨ (tail = [] ∧ fault = .unclosedParenthesis opening.position) ∨
        fault ∈ faultsOf [] tail.tail := by
  -- the enclosed marks pop nothing that was pushed in front of them
  have pushed : leftOpen (stackBehind [] opening) inside =
      leftOpen [] inside ++ [opening.position] := by
    have below : leftOpen ([] ++ [opening.position]) inside = leftOpen [] inside ++ _ :=
      leftOpen_outer [opening.position] readable.enclosed
    rw [stackBehind, if_pos isOpening]
    exact below
  have closed := isUnclosed_of_char? isOpening
  cases closes with
  | never =>
    simp only [faultsOf, unclosedLiterals_cons_closed closed, List.append_nil, leftOpen_cons,
      pushed, List.map_append, List.tail_nil]
    simp [unclosedLiterals, leftOpen, or_assoc]
  | @behind closing tail isClosing balanced enclosed =>
    have popped : leftOpen [] (opening :: (inside ++ closing :: tail)) = leftOpen [] tail := by
      rw [leftOpen_cons, leftOpen_append, pushed, leftOpen_eq_nil balanced, leftOpen_cons,
        stackBehind, isClosing, if_neg (by decide), if_pos rfl]
      rfl
    have empty := leftOpen_eq_nil balanced
    have closingClosed := isUnclosed_of_char? isClosing
    simp only [faultsOf, popped, unclosedLiterals_cons_closed closed, unclosedLiterals_append,
      unclosedLiterals_cons_closed closingClosed, empty, List.tail_cons]
    simp

theorem isUnclosed_char {m : Mark} {c : Char} (isChar : m.piece = .char c) :
    m.isUnclosed = false := by
  rw [isUnclosed, isChar]
  rfl

/-- Marks that are neither parentheses nor unclosed literals have no faults. -/
theorem faultsOf_append_other {ms ns : List Mark}
    (others : ∀ m ∈ ms, m.char? ≠ some '(' ∧ m.char? ≠ some ')' ∧ m.isUnclosed = false) :
    faultsOf [] (ms ++ ns) = faultsOf [] ns := by
  induction ms with
  | nil => rfl
  | cons m ms ih =>
    obtain ⟨noOpening, noClosing, closed⟩ := others m List.mem_cons_self
    rw [← ih fun other met => others other (List.mem_cons_of_mem _ met), List.cons_append, faultsOf,
      faultsOf, unclosedLiterals_cons_closed closed, leftOpen_cons,
      stackBehind_other noOpening noClosing]

theorem faultsOf_cons_char {m : Mark} {ms : List Mark} {c : Char} (isChar : m.piece = .char c)
    (noOpening : c ≠ '(') (noClosing : c ≠ ')') : faultsOf [] (m :: ms) = faultsOf [] ms := by
  have single : faultsOf [] ([m] ++ ms) = faultsOf [] ms := by
    refine faultsOf_append_other fun n met => ?_
    rw [List.mem_singleton.1 met, char?_char isChar]
    exact ⟨by simpa using noOpening, by simpa using noClosing, isUnclosed_char isChar⟩
  exact single

/-- An operator has no fault. -/
theorem faultsOf_operator {mark : Mark} {rest : List Mark} {op : Operator}
    (isLexeme : (mark :: rest.take (op.width - 1)).map piece = op.lexeme.map Piece.char) :
    faultsOf [] (mark :: rest) = faultsOf [] (rest.drop (op.width - 1)) := by
  rw [← cons_take_append_drop mark rest (op.width - 1)]
  refine faultsOf_append_other fun m met => ⟨?_, ?_, ?_⟩
  · exact char?_ne_of_lexeme isLexeme (by decide) m met
  · exact char?_ne_of_lexeme isLexeme (by decide) m met
  · have isPiece : m.piece ∈ op.lexeme.map Piece.char := isLexeme ▸ List.mem_map_of_mem met
    obtain ⟨c, -, isPiece⟩ := List.mem_map.1 isPiece
    exact isUnclosed_char isPiece.symm

/-- Readers of readable marks report the unclosed literals and the parentheses left open. -/
theorem mem_faults_read (afterOperand : Bool) (pending : Text) {ms : List Mark}
    (readable : Readable ms) (fault : Fault) :
    fault ∈ (read separator afterOperand pending ms).faults ↔ fault ∈ faultsOf [] ms := by
  refine read_induction separator
    (motive := fun afterOperand pending ms =>
      fault ∈ (read separator afterOperand pending ms).faults ↔ fault ∈ faultsOf [] ms)
    ?nil ?literal ?connector ?operator ?char ?call ?group afterOperand pending readable
  case nil => simp [faultsOf, unclosedLiterals, leftOpen]
  case literal =>
    intro afterOperand pending mark rest text closed _ isLiteral ih
    have noChar := char?_literal isLiteral
    have same : stackBehind [] mark = [] := by
      apply stackBehind_other <;> rw [noChar] <;> simp
    have unclosed : mark.isUnclosed = !closed := by rw [isUnclosed, isLiteral]; rfl
    rw [read_literal isLiteral, Transcript.faults_bind, List.mem_append, ih,
      mem_faults_reportLiteral]
    cases closed <;> simp [faultsOf, unclosedLiterals, unclosed, same]
  case connector =>
    intro afterOperand pending mark rest c readable isChar noOpening connector ih
    have noClosing := Text.ne_closing_of_isConnector (Bool.and_eq_true _ _ ▸ connector).2
    rw [read_connector isChar noOpening connector, ih,
      faultsOf_cons_char isChar noOpening noClosing]
  case operator =>
    intro afterOperand pending mark rest c op readable isChar noOpening noConnector standalone
      isLexeme behind ih
    rw [read_operator isChar noOpening noConnector standalone, faultsOf_operator isLexeme, ← ih,
      Transcript.faults_bind, Transcript.faults_pure, List.append_nil]
  case char =>
    intro afterOperand pending mark rest c readable isChar noOpening noClosing noConnector joins ih
    rw [read_char isChar noOpening noConnector joins, ih,
      faultsOf_cons_char isChar noOpening noClosing]
  case call =>
    intro afterOperand pending opening inside tail name readable isOpening insideReadable closes
      behind known ihArguments ihTail
    have arguments : fault ∈ (readArguments Transcript.events separator
        (argumentParts separator inside)).faults ↔ fault ∈ faultsOf [] inside := by
      rw [(readArguments_readable fun _ => insideReadable.of_mem_argumentParts).2,
        List.mem_flatMap, mem_faultsOf_argumentParts insideReadable]
      refine exists_congr fun part => and_congr_right fun isPart => ?_
      have partReadable := insideReadable.of_mem_argumentParts isPart
      rw [ihArguments part isPart, faultsOf_trimmed partReadable.genuine]
    rw [read_call isOpening insideReadable closes known,
      mem_faultsOf_opening (char?_char isOpening) insideReadable closes]
    simp only [Transcript.faults_bind, Transcript.faults_pure, List.append_nil, List.mem_append,
      mem_faults_reportUnclosedParenthesis, arguments, ihTail]
    -- the literal that a call reports is reported again by the argument that it stands in
    have literal : fault ∈ (reportUnclosedLiteral Transcript.events inside).faults →
        fault ∈ faultsOf [] inside := mem_faultsOf_of_reportUnclosedLiteral
    tauto
  case group =>
    intro afterOperand pending opening inside tail readable isOpening insideReadable closes behind
      unknown ihInside ihTail
    rw [read_group isOpening insideReadable closes unknown]
    simp only [Transcript.faults_bind, Transcript.faults_pure, List.append_nil, List.mem_append,
      mem_faults_reportUnclosedParenthesis, ihInside, ihTail,
      mem_faultsOf_opening (char?_char isOpening) insideReadable closes]

/-! ## The marks of a text -/

/-- What the pass finds among marks: the first `)` without a partner and nothing else, or all that
is left unclosed at the end. -/
def Mark.scan (opened : List Nat) (ms : List Mark) : List Fault :=
  match (cutAtClose opened.length ms).2 with
  | [] => faultsOf opened ms
  | stray :: _ => [.unmatchedCloseParenthesis stray.position]

theorem Mark.scan_cons {opened : List Nat} {m : Mark} {ms : List Mark}
    (closed : m.isUnclosed = false) (partner : ¬(opened = [] ∧ m.char? = some ')')) :
    scan opened (m :: ms) = scan (stackBehind opened m) ms := by
  have cut : (cutAtClose opened.length (m :: ms)).2 =
      (cutAtClose (stackBehind opened m).length ms).2 := by
    rw [cutAtClose, if_neg (by rwa [List.length_eq_zero_iff]), length_stackBehind]
    rfl
  have faults : faultsOf opened (m :: ms) = faultsOf (stackBehind opened m) ms := by
    rw [faultsOf, faultsOf, unclosedLiterals_cons_closed closed, leftOpen_cons]
  rw [scan, scan, cut, faults]

/-- The pass over a text is the pass over its marks. -/
theorem scan_place (t : Text) (position : Nat) (opened : List Nat) (indented : Bool) :
    scan opened (place position indented (pieces t)) = t.scanFaults position opened := by
  fun_induction Text.scanFaults position opened t generalizing indented with
  | case1 position opened => rw [pieces]; rfl
  | case2 position opened t closed ih =>
    rw [pieces, if_pos rfl, place, scan_cons (by rw [isUnclosed, closed]; rfl) (by rintro ⟨_, ⟨⟩⟩),
      stackBehind_other (by rintro ⟨⟩) (by rintro ⟨⟩), Piece.text, List.length_cons,
      Nat.add_comm _ 1, ← Nat.add_assoc, ih]
  | case3 position opened t unclosed =>
    -- an unclosed literal takes all the rest of the text
    have open' : (Text.literalTail t).closed = false := by simpa using unclosed
    rw [pieces, if_pos rfl, Text.rest_literalTail_of_unclosed open', open', pieces, place, place]
    simp [scan, cutAtClose, char?, Piece.char?, faultsOf, unclosedLiterals, leftOpen, stackBehind,
      isUnclosed, Piece.isUnclosed]
  | case4 position opened t _ ih =>
    rw [pieces, if_neg (by decide), place, scan_cons rfl (by rintro ⟨_, ⟨⟩⟩)]
    exact ih _
  | case5 position t =>
    rw [pieces, if_neg (by decide), place]
    rfl
  | case6 position t inner outer _ _ ih =>
    rw [pieces, if_neg (by decide), place, scan_cons rfl (by rintro ⟨⟨⟩, _⟩)]
    exact ih _
  | case7 position opened c t noQuote noOpening noClosing ih =>
    have isNot : ∀ d, c ≠ d → (Piece.char c).char? ≠ some d := by
      rintro d different ⟨⟩
      exact different rfl
    have partner : ¬(opened = [] ∧ (Piece.char c).char? = some ')') :=
      fun stray => isNot _ noClosing stray.2
    rw [pieces, if_neg noQuote, place, scan_cons rfl partner, stackBehind_other]
    · exact ih _
    · exact isNot _ noOpening
    · exact isNot _ noClosing

/-- All but the last mark of a text are closed. -/
theorem pairwise_closed_place (t : Text) (position : Nat) (indented : Bool) :
    (place position indented (pieces t)).Pairwise fun m _ => m.isUnclosed = false := by
  fun_induction pieces t generalizing position indented with
  | case1 => exact .nil
  | case2 t ih =>
    rw [place, List.pairwise_cons]
    refine ⟨fun other met => ?_, ih _ _⟩
    by_contra unclosed
    have open' : (Text.literalTail t).closed = false := by
      simpa [isUnclosed, Piece.isUnclosed] using unclosed
    rw [Text.rest_literalTail_of_unclosed open', pieces] at met
    cases met
  | case3 c t _ ih =>
    rw [place, List.pairwise_cons]
    exact ⟨fun _ _ => rfl, ih _ _⟩

/-- The positions of marks increase. -/
theorem pairwise_position_place {ps : List Piece} (texts : ∀ p ∈ ps, p.text ≠ [])
    (position : Nat) (indented : Bool) :
    (place position indented ps).Pairwise (fun m n => m.position < n.position) ∧
      ∀ m ∈ place position indented ps, position ≤ m.position := by
  induction ps generalizing position indented with
  | nil => exact ⟨.nil, fun m met => absurd met List.not_mem_nil⟩
  | cons p ps ih =>
    obtain ⟨increasing, bound⟩ := ih (fun q met => texts q (List.mem_cons_of_mem _ met))
      (position + p.text.length) (p.text.foldl Text.staysIndented indented)
    have size := List.length_pos_of_ne_nil (texts p List.mem_cons_self)
    rw [place, List.pairwise_cons]
    refine ⟨⟨fun m met => ?_, increasing⟩, fun m met => ?_⟩
    · have := bound m met
      simp only
      omega
    · rcases List.mem_cons.1 met with rfl | met
      · exact Nat.le_refl _
      · have := bound m met
        omega

/-- Positions on the stack stay different. -/
theorem nodup_leftOpen {opened : List Nat} {ms : List Mark} (distinct : opened.Nodup)
    (before : ∀ n ∈ opened, ∀ m ∈ ms, n < m.position)
    (increasing : ms.Pairwise fun m n => m.position < n.position) :
    (leftOpen opened ms).Nodup := by
  induction ms generalizing opened with
  | nil => exact distinct
  | cons m ms ih =>
    obtain ⟨first, rest⟩ := List.pairwise_cons.1 increasing
    have later : ∀ n ∈ opened, ∀ other ∈ ms, n < other.position :=
      fun n met other within => before n met other (List.mem_cons_of_mem _ within)
    rw [leftOpen_cons]
    unfold stackBehind
    split
    -- the pushed position lies behind all those on the stack
    · refine ih (List.nodup_cons.2 ⟨fun met => ?_, distinct⟩) ?_ rest
      · exact Nat.lt_irrefl _ (before _ met m List.mem_cons_self)
      · intro n met
        rcases List.mem_cons.1 met with rfl | met
        · exact first
        · exact later n met
    · split
      · exact ih distinct.tail (fun n met => later n (List.mem_of_mem_tail met)) rest
      · exact ih distinct later rest

theorem nodup_scanFaults (t : Text) : (t.scanFaults 0 []).Nodup := by
  have texts : ∀ p ∈ pieces t, p.text ≠ [] := fun p => text_ne_nil_of_mem_pieces
  obtain ⟨increasing, -⟩ := pairwise_position_place texts 0 false
  rw [← scan_place t 0 [] false, scan]
  split
  · refine List.nodup_append.2 ⟨?_, ?_, ?_⟩
    · refine List.Nodup.map (fun _ _ => Fault.unterminatedString.inj) ?_
      have positions := (increasing.filter isUnclosed).map position
        (S := fun m n => m < n) fun _ _ => id
      exact positions.imp Nat.ne_of_lt
    · refine List.Nodup.map (fun _ _ => Fault.unclosedParenthesis.inj) ?_
      exact nodup_leftOpen .nil (fun n met => absurd met List.not_mem_nil) increasing
    -- a literal and a parenthesis have different faults, wherever they stand
    · intro fault literal other parenthesis same
      obtain ⟨_, _, rfl⟩ := List.mem_map.1 literal
      obtain ⟨_, _, rfl⟩ := List.mem_map.1 parenthesis
      cases same
  · exact List.nodup_singleton _

/-! ## The faults of a formula -/

/-- The transcript of a formula has the faults that the pass over its body finds. -/
theorem Formula.mem_faults_transcript (f : Formula) (fault : Fault) :
    fault ∈ f.transcript.faults ↔ fault ∈ f.body.scanFaults 0 [] := by
  have readable := readable_fst_cutAtClose (allGenuine_marks f.body)
  have front : fault ∈ (Mark.read f.separator _ _ _).faults ↔ _ :=
    mem_faults_read false [] readable fault
  have whole := cutAtClose_whole 0 (marks f.body)
  have faults : f.transcript.faults =
      (read f.separator false [] (cutAtClose 0 (marks f.body)).1).faults ++
        (finishParts Transcript.events
          (read f.separator false [] (cutAtClose 0 (marks f.body)).1).value
          (cutAtClose 0 (marks f.body)).2).faults := by
    rw [transcript, readBody, readWhole]
    simp only [Transcript.faults_bind, Transcript.faults_pure, List.append_nil]
    rfl
  rw [faults, List.mem_append, front, ← scan_place f.body 0 [] false, ← marks, scan,
    List.length_nil]
  cases cut : (cutAtClose 0 (marks f.body)).2 with
  | nil =>
    rw [cut, List.append_nil] at whole
    simp [whole, finishParts]
  | cons stray tail =>
    have balanced := (head_snd_cutAtClose cut).2
    -- an unclosed literal would be the last mark, but the stray one stands behind it
    have closed : unclosedLiterals (cutAtClose 0 (marks f.body)).1 = [] := by
      have pairs := pairwise_closed_place f.body 0 false
      rw [← marks, ← whole, cut, List.pairwise_append] at pairs
      rw [unclosedLiterals, List.filter_eq_nil_iff.2, List.map_nil]
      intro m met
      simp [pairs.2.2 m met stray List.mem_cons_self]
    simp [faultsOf, closed, leftOpen_eq_nil balanced, finishParts]

theorem Formula.perm_faults (f : Formula) : f.faults.Perm (f.body.scanFaults 0 []) :=
  (List.perm_ext_iff_of_nodup f.nodup_faults (nodup_scanFaults f.body)).2 fun fault =>
    (f.mem_faults fault).trans (f.mem_faults_transcript fault)

/-- Whatever follows an opening parenthesis, no part of its argument list has a `)` without a
partner. -/
theorem cutAtClose_trimmed_argumentParts (separator : Separator) {ms part : List Mark}
    (genuine : AllGenuine ms) (isPart : part ∈ argumentParts separator (cutAtClose 0 ms).1) :
    (cutAtClose 0 (trimmed part)).2 = [] :=
  ((readable_fst_cutAtClose genuine).of_mem_argumentParts isPart).trimmed.enclosed

/-- The faults of any formula are, each once, those that one pass over its body finds. Strict
reading accepts the formulas whose literals are closed and whose parentheses are paired, and no
argument that is read again has a `)` without a partner. -/
theorem faults_perm_scan (t : Text) :
    (Formula.ofText t).faults.Perm ((Formula.ofText t).body.scanFaults 0 []) ∧
      (Formula.ofText t).faults.Nodup ∧
      ((∃ tree, (Formula.ofText t).tree? = .ok tree) ↔
        (Formula.ofText t).body.LiteralsClosed ∧
          Piece.Balanced 0 (pieces (Formula.ofText t).body)) ∧
      ∀ ms, AllGenuine ms → ∀ part ∈ argumentParts (Formula.ofText t).separator (cutAtClose 0 ms).1,
        (cutAtClose 0 (trimmed part)).2 = [] := by
  generalize Formula.ofText t = f
  refine ⟨f.perm_faults, f.nodup_faults, ?_, fun ms genuine part isPart => ?_⟩
  · have accepts : (∃ tree, f.tree? = .ok tree) ↔ f.transcript.faults = [] := by
      rw [Formula.tree?_eq]
      cases f.transcript.faults <;> simp
    have none : f.transcript.faults = [] ↔ f.body.scanFaults 0 [] = [] := by
      rw [List.eq_nil_iff_forall_not_mem, List.eq_nil_iff_forall_not_mem]
      exact forall_congr' fun fault => not_congr (f.mem_faults_transcript fault)
    rw [accepts, none, Text.scanFaults_eq_nil_iff, List.length_nil]
  · exact cutAtClose_trimmed_argumentParts _ genuine isPart

end SheetFormula
