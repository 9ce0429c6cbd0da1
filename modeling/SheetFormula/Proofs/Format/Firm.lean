import SheetFormula.Proofs.Format.Apart
import SheetFormula.Proofs.Format.Beautify
import SheetFormula.Proofs.Reading.Display

/-!
# Layout of firm tokens

The leaves of an accepted formula may hold ordinary connectors. Setting their operators between
spaces brings none of these into an indentation (`Text.Firm.spaced`), and no part leaves an
indentation behind for the next one. So a laid out formula has its essence, as long as nothing that
gets a line of its own begins with a connector (`essence_beautify_of_sheltered`).

## Main definitions

* `Text.FirmToken` — the text of a leaf
* `Expression.sheltered` — whether what gets a line of its own begins with no connector
-/

namespace SheetFormula

open Piece (Whole Respaced)

/-! ## Firm texts between spaces -/

section Spaced

variable {p : Piece} {ps qs : List Piece} {i j : Bool} {t : Text}

theorem Piece.Whole.quotedAfter_text (whole : p.Whole) : Text.quotedAfter false p.text = false := by
  cases p with
  | char c => exact Text.quotedBehind_other fun isQuote => whole.ne_quote (congrArg _ isQuote)
  | literal text closed =>
    obtain ⟨-, tail, rfl, ends⟩ := whole.literal text closed rfl
    have side := (Text.essenceFrom_literalTail tail false).2
    rw [ends] at side
    exact side

/-- Other blanks bring no connector into an indentation, and have no essence either. -/
theorem Piece.Respaced.steady (respaced : Respaced ps qs) (whole : ∀ p ∈ ps, p.Whole)
    (below : j = true → i = true) (steady : Text.Steady false i (textOf ps)) :
    Text.Steady false j (textOf qs) ∧
      Text.essenceFrom false j (textOf qs) = Text.essenceFrom false i (textOf ps) := by
  induction respaced generalizing i j with
  | nil => exact ⟨trivial, rfl⟩
  | @keep ps qs p _ ih =>
    obtain ⟨first, others⟩ := List.forall_mem_cons.1 whole
    have closed := first.quotedAfter_text
    rw [textOf_cons, Text.steady_append, closed] at steady
    obtain ⟨here, same⟩ := steady.1.mono below
    obtain ⟨later, rest⟩ := ih others (Text.indentedAfter_mono below) steady.2
    rw [textOf_cons, textOf_cons, Text.steady_append, Text.essenceFrom_append,
      Text.essenceFrom_append, closed, same, rest]
    exact ⟨⟨here, later⟩, rfl⟩
  | @drop p ps qs blank _ ih =>
    cases p with
    | literal text closed => cases blank
    | char c =>
      have isBlank : Text.isBlank c = true := blank
      have noQuote := Text.ne_quote_of_isBlank isBlank
      have behind := steady.2
      rw [Text.quotedBehind_other noQuote] at behind
      obtain ⟨later, rest⟩ := ih (List.forall_mem_cons.1 whole).2 (fun inside => by
        simp [Text.staysIndented, below inside, isBlank]) behind
      refine ⟨later, ?_⟩
      show _ = Text.essenceFrom false i (c :: textOf ps)
      have nothing : Text.essentialAt false i c = [] := by
        simp [Text.essentialAt, Text.isLayout, isBlank]
      rw [rest, Text.essenceFrom, nothing, Text.quotedBehind_other noQuote]
      rfl
  | @space ps qs _ ih =>
    have stays : Text.staysIndented j ' ' = j := by cases j <;> decide
    obtain ⟨later, rest⟩ := ih whole below steady
    have nothing : Text.essentialAt false j ' ' = [] := by cases j <;> decide
    refine ⟨⟨fun _ _ => by decide, ?_⟩, ?_⟩
    · rw [stays]
      exact later
    · show Text.essenceFrom false j (' ' :: textOf qs) = _
      rw [Text.essenceFrom, nothing, stays]
      exact rest

namespace Text

/-- Between spaces, a firm text stays firm and keeps its essence. -/
theorem Firm.spaced (firm : Firm t) : Firm (spaced t) ∧ (spaced t).essence = t.essence := by
  have closed := literalsClosed_iff.2 firm.closed
  have steady := firm.steady
  rw [← textOf_pieces t] at steady
  obtain ⟨stays, same⟩ := (respaced_spacedPieces (quoted_pieces t)).steady (whole_pieces closed).1
    id steady
  have spacedClosed := (Holds.spaced (t := t) ⟨closed, rfl⟩).closed
  rw [textOf_pieces] at same
  refine ⟨⟨literalsClosed_iff.1 spacedClosed, stays⟩, ?_⟩
  rw [essence_eq, essence_eq]
  exact same

/-- A firm text without blanks around it. -/
structure FirmToken (t : Text) : Prop where
  firm : Firm t
  trimmed : trim t = t

theorem FirmToken.shows (token : FirmToken t) : Shows t t.essence := by
  have settled := token.firm.settled_trim.1
  rw [token.trimmed] at settled
  exact ⟨settled, rfl⟩

end Text

/-- A piece that is no blank neither begins nor ends with one. -/
theorem Piece.Whole.ends (whole : p.Whole) (noBlank : p.isBlank = false) :
    (∃ c, p.text.head? = some c ∧ Text.isBlank c = false) ∧
      ∃ c, p.text.getLast? = some c ∧ Text.isBlank c = false := by
  cases p with
  | char c => exact ⟨⟨c, rfl, noBlank⟩, ⟨c, rfl, noBlank⟩⟩
  | literal text closed =>
    obtain ⟨first, last⟩ := whole.quotes rfl
    exact ⟨⟨'"', first, by decide⟩, ⟨'"', last, by decide⟩⟩

theorem Text.trim_textOf (whole : ∀ p ∈ ps, p.Whole)
    (first : ∀ p, ps.head? = some p → p.isBlank = false)
    (last : ∀ p, ps.getLast? = some p → p.isBlank = false) :
    Text.trim (textOf ps) = textOf ps := by
  refine trimEnds_eq_self (fun c isFirst => ?_) fun c isLast => ?_
  · cases ps with
    | nil => cases isFirst
    | cons p ps =>
      obtain ⟨⟨d, begins, noBlank⟩, -⟩ := (whole p List.mem_cons_self).ends (first p rfl)
      rw [textOf_cons, List.head?_append, begins] at isFirst
      exact Option.some.inj isFirst ▸ noBlank
  · rcases List.eq_nil_or_concat ps with rfl | ⟨front, p, rfl⟩
    · cases isLast
    · rw [List.concat_eq_append] at whole last isLast
      obtain ⟨-, d, ends, noBlank⟩ := (whole p (by simp)).ends (last p (by simp))
      rw [textOf_append, textOf_cons, List.getLast?_append, List.getLast?_append, ends] at isLast
      exact Option.some.inj isLast ▸ noBlank

theorem Text.FirmToken.spaced (token : t.FirmToken) : (Text.spaced t).FirmToken := by
  have proper := proper_spacedPieces (Piece.proper_pieces (literalsClosed_iff.2 token.firm.closed))
  exact ⟨token.firm.spaced.1, Text.trim_textOf proper.whole (fun p => head?_trimEnds)
    fun p => getLast?_trimEnds⟩

theorem Text.FirmToken.shows_leaf (token : t.FirmToken) (style : Style) :
    (style.leaf t).Shows t.essence := by
  unfold Style.leaf
  split
  · exact token.firm.spaced.2 ▸ token.spaced.shows
  · exact token.shows

end Spaced

/-- The tokens of complete marks are firm. -/
theorem Mark.rowInvariant_continues : RowInvariant Continues Text.FirmToken :=
  { tokenInvariant_continues.rowInvariant with
    token := fun {pending _} continues => ⟨continues.firm.trim.1, trimEnds_trimEnds pending⟩ }

/-! ## The first character of an argument -/

namespace Expression

/-- Several parts are some. -/
theorem not_isEmpty_of_two {es : List Expression} (two : 2 ≤ es.length) : ¬es.isEmpty = true := by
  cases es with
  | nil => cases two
  | cons => exact Bool.noConfusion

theorem IsArgument.head?_layout {P : Text → Prop} {style : Style} {depth : Nat} {e : Expression}
    (argument : IsArgument P e) (trims : ∀ t, P t → Text.trim t = t) {c : Char}
    (first : (layout style depth e).head? = some c) :
    e.display.head? = some c ∧ Text.isBlank c = false := by
  cases argument with
  | nothing =>
    rw [layout_plain, if_pos List.isEmpty_nil, Style.leaf_nil] at first
    cases first
  | single part =>
    obtain ⟨d, begins, shows, noBlank⟩ := part.head?_layout trims
    rw [begins] at first
    exact Option.some.inj first ▸ ⟨shows, noBlank⟩
  | @several source parts two row =>
    rw [layout_plain, if_neg (not_isEmpty_of_two two)] at first
    rw [display, if_neg (not_isEmpty_of_two two)]
    exact row.head?_layout trims first

end Expression

/-! ## Groups and calls -/

namespace Text

variable {t r : Text}

/-- Where it begins with neither a blank nor a connector, a text has the same essence in an
indentation. -/
theorem Shows.yields (shows : Shows t r)
    (begins : ∀ c, t.head? = some c → isBlank c = false ∧ isConnector c = false) :
    Yields t r := by
  refine ⟨shows.settled.closed, fun indented => ?_⟩
  rw [← shows.essence, essence_eq]
  cases t with
  | nil => rfl
  | cons c t =>
    obtain ⟨noBlank, noConnector⟩ := begins c rfl
    exact essenceFrom_cons noBlank fun _ => noConnector

/-- A text that ends in a parenthesis leaves nothing behind. -/
theorem Yields.shows {front : Text} (yields : Yields (front ++ [')']) r) :
    Shows (front ++ [')']) r := by
  refine ⟨⟨yields.closed, ?_⟩, (essence_eq _).trans (yields.essence false)⟩
  rw [indentedAfter_append]
  exact staysIndented_eq_false (c := ')') (by decide) fun _ => by decide

/-- A character that neither begins nor keeps up an indentation. -/
theorem shows_char {c : Char} (noQuote : c ≠ '"') (noConnector : isConnector c = false)
    (inside : staysIndented false c = false) :
    Shows [c] (if isBlank c then [] else essential c) :=
  ⟨⟨quotedBehind_other noQuote, inside⟩, (tidy_singleton noQuote noConnector).2⟩

end Text

section Parts

variable {style : Style} {depth : Nat} {arguments : List Expression} {ts rs : List Text}

theorem shows_gapBetween (e : Expression) (es : List Expression) : (gapBetween e es).Shows [] := by
  unfold gapBetween
  split
  · exact Text.shows_nil
  · split
    · exact Text.shows_char (by decide) (by decide) (by decide)
    · exact Text.shows_nil

theorem exists_closing_groupText (style : Style) (depth : Nat) (holdsCall : Bool)
    (content : Text) :
    ∃ front, groupText style depth holdsCall content = front ++ [')'] := by
  unfold groupText
  split
  · exact ⟨'(' :: content, rfl⟩
  · exact ⟨'(' :: '\n' :: (style.indent (depth + 1) ++ (content ++ '\n' :: style.indent depth)),
      by simp⟩

theorem exists_closing_callText (style : Style) (depth : Nat) (name : Text)
    (arguments : List Expression) (rendered : List Text) :
    ∃ front, callText style depth name arguments rendered = front ++ [')'] := by
  have inline : ∀ ts, ∃ front, callInline name ts = front ++ [')'] := fun ts =>
    ⟨name ++ '(' :: Text.joined [';', ' '] ts, by simp [callInline]⟩
  unfold callText
  split
  · exact inline []
  · split
    · exact inline rendered
    · exact ⟨name ++ '(' :: '\n' :: (argumentLines style depth rendered ++ style.indent depth),
        by simp [callBroken]⟩

theorem yieldsEach_layoutEach {es : List Expression}
    (each : ∀ e ∈ es, (layout style depth e).Yields e.essence) :
    YieldsEach (layoutEach style depth es) (Expression.essences es) := by
  rw [layoutEach_eq_map, Expression.essences_eq_map]
  induction es with
  | nil => exact .nil
  | cons e es ih =>
    obtain ⟨first, others⟩ := List.forall_mem_cons.1 each
    exact .cons first (ih others)

/-- A broken group begins a line with its parts. -/
theorem shows_groupText {content r : Text} {holdsCall : Bool} (inner : content.Shows r)
    (begins : groupFits holdsCall content = true ∨
      ∀ c, content.head? = some c → Text.isBlank c = false ∧ Text.isConnector c = false) :
    (groupText style depth holdsCall content).Shows (['('] ++ r ++ [')']) := by
  rcases begins with fits | begins
  · have opening : Text.Shows ['('] ['('] := Text.shows_bracket (by decide)
    have closing : Text.Shows [')'] [')'] := Text.shows_bracket (by decide)
    rw [groupText, if_pos fits]
    exact (opening.append inner).append closing
  · have whole : (groupText style depth holdsCall content).Yields _ :=
      yields_groupText holdsCall (inner.yields begins)
    obtain ⟨front, same⟩ := exists_closing_groupText style depth holdsCall content
    rw [same] at whole ⊢
    exact whole.shows

theorem shows_joined (each : List.Forall₂ Text.Shows ts rs) :
    (Text.joined [';', ' '] ts).Shows (Text.joined [','] rs) := by
  have semicolon : Text.Shows [';'] [','] :=
    Text.shows_char (by decide) (by decide) (by decide)
  have gap : Text.Shows [' '] [] := Text.shows_char (by decide) (by decide) (by decide)
  induction each with
  | nil => exact Text.shows_nil
  | cons first rest ih =>
    cases rest with
    | nil => exact first
    | cons => exact first.append ((semicolon.append gap).append ih)

theorem shows_callInline {name : Text} (isKnown : name ∈ FunctionName.known)
    (each : List.Forall₂ Text.Shows ts rs) :
    (callInline name ts).Shows (name ++ ['('] ++ Text.joined [','] rs ++ [')']) := by
  have opening : Text.Shows ['('] ['('] := Text.shows_bracket (by decide)
  have closing : Text.Shows [')'] [')'] := Text.shows_bracket (by decide)
  have front := ((Text.shows_name isKnown).append opening).append (shows_joined each)
  have whole := front.append closing
  simpa [callInline] using whole

/-- A broken call begins a line with each of its arguments. -/
theorem shows_callText {name : Text} (isKnown : name ∈ FunctionName.known)
    (each : ∀ a ∈ arguments, (layout style (depth + 1) a).Shows a.essence)
    (begins : fitsOneLine style arguments (layoutEach style (depth + 1) arguments) = true ∨
      ∀ a ∈ arguments, ∀ c, (layout style (depth + 1) a).head? = some c →
        Text.isBlank c = false ∧ Text.isConnector c = false) :
    (callText style depth name arguments (layoutEach style (depth + 1) arguments)).Shows
      (name ++ ['('] ++ Text.joined [','] (Expression.essences arguments) ++ [')']) := by
  rcases begins with fits | begins
  · have whole : callText style depth name arguments (layoutEach style (depth + 1) arguments) =
        callInline name (layoutEach style (depth + 1) arguments) := by
      rw [callText, if_pos fits]
      split
      · next none => rw [List.isEmpty_iff.1 none, layoutEach_eq_map, List.map_nil]
      · rfl
    rw [whole]
    refine shows_callInline isKnown ?_
    rw [layoutEach_eq_map, Expression.essences_eq_map, List.forall₂_map_left_iff,
      List.forall₂_map_right_iff, List.forall₂_same]
    exact each
  · have whole : (callText style depth name arguments _).Yields _ :=
      yields_callText isKnown (by rw [layoutEach_eq_map, List.isEmpty_map])
        (yieldsEach_layoutEach fun a met => (each a met).yields (begins a met))
    obtain ⟨front, same⟩ := exists_closing_callText style depth name arguments
      (layoutEach style (depth + 1) arguments)
    rw [same] at whole ⊢
    exact whole.shows

end Parts

/-! ## Expressions -/

namespace Expression

/-- Whether the text begins with no connector. -/
def beginsPlainly (t : Text) : Bool :=
  !t.head?.any Text.isConnector

theorem beginsPlainly_iff {t : Text} :
    beginsPlainly t = true ↔ ∀ c, t.head? = some c → Text.isConnector c = false := by
  rw [beginsPlainly]
  cases t.head? <;> simp

mutual

/-- Whether nothing that gets a line of its own begins with a connector: neither the inside of a
broken group nor an argument of a broken call. -/
def sheltered (style : Style) (depth : Nat) : Expression → Bool
  | plain _ parts => shelteredEach style depth parts
  | group _ parts =>
    (groupFits (anyContainsCall parts) (layoutSequence style (depth + 1) parts) ||
      beginsPlainly (displayEach parts).flatten) && shelteredEach style (depth + 1) parts
  | call _ _ arguments =>
    (fitsOneLine style arguments (layoutEach style (depth + 1) arguments) ||
      arguments.all fun a => beginsPlainly a.display) && shelteredEach style (depth + 1) arguments
  | operator _ => true

/-- Whether this holds of each of several expressions. -/
def shelteredEach (style : Style) (depth : Nat) : List Expression → Bool
  | [] => true
  | e :: es => sheltered style depth e && shelteredEach style depth es

end

variable {style : Style}

theorem shelteredEach_eq_all {depth : Nat} {es : List Expression} :
    shelteredEach style depth es = es.all (sheltered style depth) := by
  induction es with
  | nil => rw [shelteredEach, List.all_nil]
  | cons e es ih => rw [shelteredEach, ih, List.all_cons]

mutual

theorem InRow.shows_layout {e : Expression} {depth : Nat} (part : InRow Text.FirmToken e)
    (shelters : sheltered style depth e = true) : (layout style depth e).Shows e.essence := by
  cases part with
  | @leaf t token _ =>
    rw [Expression.essence, layout_plain, if_pos List.isEmpty_nil, if_pos List.isEmpty_nil]
    exact token.shows_leaf style
  | @group source parts row =>
    rw [sheltered, Bool.and_eq_true, Bool.or_eq_true, beginsPlainly_iff] at shelters
    rw [Expression.essence, layout_group]
    refine shows_groupText (row.shows_layout shelters.2)
      (shelters.1.imp_right fun plainly c first => ?_)
    obtain ⟨shown, noBlank⟩ := row.head?_layout (fun t => Text.FirmToken.trimmed) first
    exact ⟨noBlank, plainly c shown⟩
  | @call name source arguments known each =>
    rw [sheltered, Bool.and_eq_true, Bool.or_eq_true, List.all_eq_true, shelteredEach_eq_all,
      List.all_eq_true] at shelters
    rw [Expression.essence, layout_call known]
    refine shows_callText known (fun a met => (each a met).shows_layout (shelters.2 a met))
      (shelters.1.imp_right fun plainly a met c first => ?_)
    obtain ⟨shown, noBlank⟩ := (each a met).head?_layout (fun t => Text.FirmToken.trimmed) first
    exact ⟨noBlank, beginsPlainly_iff.1 (plainly a met) c shown⟩
  | operator op =>
    rw [Expression.essence, layout_operator]
    exact Text.shows_lexeme op

theorem Row.shows_layout {es : List Expression} {depth : Nat} (row : Row Text.FirmToken es)
    (shelters : shelteredEach style depth es = true) :
    (layoutSequence style depth es).Shows (essences es).flatten := by
  cases row with
  | nil =>
    rw [layoutSequence_nil, essences]
    exact Text.shows_nil
  | @cons e es part _ behind =>
    rw [shelteredEach, Bool.and_eq_true] at shelters
    rw [layoutSequence_cons, essences, List.flatten_cons]
    exact (part.shows_layout shelters.1).append
      ((shows_gapBetween e es).append (behind.shows_layout shelters.2))

theorem IsArgument.shows_layout {e : Expression} {depth : Nat}
    (argument : IsArgument Text.FirmToken e) (shelters : sheltered style depth e = true) :
    (layout style depth e).Shows e.essence := by
  cases argument with
  | nothing =>
    rw [layout_plain, if_pos List.isEmpty_nil, Style.leaf_nil, Expression.essence,
      if_pos List.isEmpty_nil, Text.essence_nil]
    exact Text.shows_nil
  | single part => exact part.shows_layout shelters
  | @several source parts two row =>
    rw [sheltered] at shelters
    rw [layout_plain, Expression.essence, if_neg (not_isEmpty_of_two two),
      if_neg (not_isEmpty_of_two two)]
    exact row.shows_layout shelters

end

/-- A root has no text of its own: it is empty, or laid out from its parts. -/
theorem Row.shows_plain {source : Text} {parts : List Expression} {depth : Nat}
    (row : Row Text.FirmToken parts) (nothing : parts = [] → source = [])
    (shelters : sheltered style depth (plain source parts) = true) :
    (layout style depth (plain source parts)).Shows (plain source parts).essence := by
  cases parts with
  | nil => exact nothing rfl ▸ IsArgument.nothing.shows_layout (nothing rfl ▸ shelters)
  | cons part parts =>
    rw [sheltered] at shelters
    rw [layout_plain, if_neg Bool.noConfusion, Expression.essence, if_neg Bool.noConfusion]
    exact row.shows_layout shelters

end Expression

/-! ## Formulas -/

open Mark Expression in
/-- The parts of an accepted formula stand in a row, and there are some unless it is empty. -/
theorem Formula.row_of_tree? {t : Text} {tree : Expression}
    (accepted : (ofText t).tree? = .ok tree) : ∃ parts,
      tree = .plain (ofText t).body parts ∧ Row Text.FirmToken parts ∧
        (parts = [] → (ofText t).body = []) ∧ tree.essence = (ofText t).body.essence := by
  obtain ⟨parts, whole, row, visible⟩ :=
    row_of_accepted rowInvariant_continues accepted (ofText t).continues_marks
  refine ⟨parts, whole, row, visible, ?_⟩
  obtain ⟨rfl, closed, enclosed, balanced⟩ := (ofText t).paired_of_tree? accepted
  have essence := (ofText t).essence_tree closed
  rwa [(ofText t).countP_faults closed, enclosed.cutAtClose_eq, balanced, List.replicate_zero,
    List.append_nil] at essence

/-- An accepted formula keeps its essence, also with ordinary connectors, if nothing that gets a
line of its own begins with one. -/
theorem essence_beautify_of_sheltered {style : Style} {t : Text} {tree : Expression}
    (narrow : style.indentSize ≤ widestIndent) (accepted : (Formula.ofText t).tree? = .ok tree)
    (shelters : tree.sheltered style 0 = true) :
    (Formula.ofText (beautify style t)).body.essence = (Formula.ofText t).body.essence := by
  obtain ⟨rfl, -⟩ := (Formula.ofText t).paired_of_tree? accepted
  obtain ⟨parts, whole, row, visible, essence⟩ := Formula.row_of_tree? accepted
  have begins := (Formula.ofText t).begins_layout_tree style (Formula.trim_body_ofText t)
  have shows : (layout style 0 (Formula.ofText t).tree).Shows (Formula.ofText t).tree.essence := by
    rw [whole] at shelters ⊢
    exact row.shows_plain visible shelters
  have same := shows.essence.trans essence
  have nothing : _ = (Formula.ofText t).body.essence ++ List.replicate 0 ')' :=
    same.trans (List.append_nil _).symm
  rw [beautify_eq narrow, Formula.essence_body_withEquals begins shows.settled.closed nothing,
    same]

end SheetFormula
