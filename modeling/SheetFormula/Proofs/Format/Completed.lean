import SheetFormula.Proofs.Format.Separators
import SheetFormula.Proofs.Reading.Completed

/-!
# Completed formulas

Recovering from parentheses that are never closed means to read the formula with the `)` that it
lacks: the completed formula is accepted, has the same tree but for the source texts of nodes with
parts, and is laid out alike (`tree_completed`).
-/

namespace SheetFormula

/-- Parentheses are paired where none is left open. -/
theorem Piece.balanced_iff_leftOpen? {depth : Nat} {ps : List Piece} :
    Balanced depth ps ↔ leftOpen? depth ps = some 0 := by
  induction ps generalizing depth with
  | nil => rw [Balanced, leftOpen?, Option.some_inj]
  | cons p ps ih =>
    rw [Balanced, leftOpen?]
    split
    · exact ih
    · split
      · rw [ih]
        split
        · next none => simp [none]
        · next some => exact and_iff_right (Nat.pos_of_ne_zero some)
      · exact ih

/-- Blanks and `)` are no other characters. -/
theorem Text.not_mem_closers {blanks : Text} (blank : ∀ c ∈ blanks, isBlank c = true) (k : Nat)
    {c : Char} (noBlank : isBlank c = false) (noClosing : c ≠ ')') :
    c ∉ blanks ++ List.replicate k ')' := by
  rw [List.mem_append, not_or]
  refine ⟨fun met => ?_, fun met => noClosing (List.eq_of_mem_replicate met)⟩
  rw [blank c met] at noBlank
  cases noBlank

/-! ## Characters behind a text -/

theorem Text.pieces_append_chars {s u : Text} (closed : s.LiteralsClosed) (noQuote : '"' ∉ u) :
    pieces (s ++ u) = pieces s ++ u.map .char := by
  rw [pieces_append closed (literalsClosed_of_noQuote noQuote)
    (.inr fun first => noQuote (List.mem_of_head? first)), pieces_of_noQuote noQuote]

/-- Only a semicolon makes a difference to the separator. -/
theorem Separator.ofText_append {s u : Text} (closed : s.LiteralsClosed) (noQuote : '"' ∉ u)
    (noSemicolon : ';' ∉ u) : ofText (s ++ u) = ofText s := by
  rw [ofText_eq, ofText_eq, Text.pieces_append_chars closed noQuote]
  simp [noSemicolon]

namespace Mark

theorem place_append (position : Nat) (indented : Bool) (ps qs : List Piece) :
    ∃ further i, place position indented (ps ++ qs) =
      place position indented ps ++ place further i qs := by
  induction ps generalizing position indented with
  | nil => exact ⟨position, indented, rfl⟩
  | cons p ps ih =>
    obtain ⟨further, i, same⟩ :=
      ih (position + p.text.length) (p.text.foldl Text.staysIndented indented)
    exact ⟨further, i, congrArg _ same⟩

/-- Blanks and closers behind a text complete its marks. -/
theorem completes_marks {s blanks : Text} {k : Nat} (closed : s.LiteralsClosed)
    (blank : ∀ c ∈ blanks, Text.isBlank c = true)
    (left : Piece.leftOpen? 0 (pieces s) = some k) :
    ∃ bs cs, marks (s ++ (blanks ++ List.replicate k ')')) = marks s ++ (bs ++ cs) ∧
      Completes (marks s) bs cs := by
  obtain ⟨further, i, same⟩ :=
    place_append 0 false (pieces s) ((blanks ++ List.replicate k ')').map .char)
  have cut := Text.pieces_append_chars closed
    (Text.not_mem_closers blank k (c := '"') (by decide) (by decide))
  -- the marks behind are told apart by their characters
  have isText := map_piece_place ((blanks ++ List.replicate k ')').map .char) further i
  rw [List.map_append, List.map_eq_append_iff] at isText
  obtain ⟨bs, cs, behind, isBlanks, isClosers⟩ := isText
  have whole : marks (s ++ (blanks ++ List.replicate k ')')) = marks s ++ (bs ++ cs) := by
    rw [marks, cut, same, List.map_append, behind, marks]
  have genuine : AllGenuine (marks s ++ (bs ++ cs)) := whole ▸ allGenuine_marks _
  have genuineExtra := (allGenuine_append.1 genuine).2
  have matched : openAfter 0 (marks s) = k := by
    rw [← map_piece_marks, leftOpen?_map_piece] at left
    exact left.2
  refine ⟨bs, cs, whole, complete_place closed 0 false, genuineExtra, fun m met => ?_,
    fun m met => ?_, ?_⟩
  · have isChar : m.piece ∈ blanks.map Piece.char := isBlanks ▸ List.mem_map_of_mem met
    obtain ⟨c, within, isChar⟩ := List.mem_map.1 isChar
    exact (genuineExtra m (List.mem_append_left _ met)).layout_of_blank c isChar.symm
      (blank c within)
  · have isChar : m.piece ∈ (List.replicate k ')').map Piece.char :=
      isClosers ▸ List.mem_map_of_mem met
    obtain ⟨c, within, isChar⟩ := List.mem_map.1 isChar
    rw [List.eq_of_mem_replicate within] at isChar
    exact char?_char isChar.symm
  · have size := congrArg List.length isClosers
    rw [List.length_map, List.length_map, List.length_replicate] at size
    rw [matched, size]

end Mark

namespace Formula

open Mark

/-! ## Completed formulas -/

theorem ofText_append_blanks {trail : Text} (trailing : ∀ c ∈ trail, Text.isBlank c = true)
    (s : Text) : ofText (s ++ trail) = ofText s := by
  have same : Text.trim ([] ++ s ++ trail) = Text.trim s :=
    trimEnds_append (fun _ met => absurd met List.not_mem_nil) trailing s
  rw [List.nil_append] at same
  rw [ofText, ofText, same]

/-- What is put behind a formula is put behind its body. -/
theorem ofText_append_closers {t : Text} (visible : (ofText t).body ≠ []) (k : Nat) :
    ∃ blanks, (∀ c ∈ blanks, Text.isBlank c = true) ∧
      ofText (t ++ List.replicate (k + 1) ')') =
        ⟨(ofText t).hasEquals, (ofText t).body ++ (blanks ++ List.replicate (k + 1) ')')⟩ := by
  obtain ⟨lead, trail, whole, leading, trailing, exchange⟩ := exists_frame t
  have front : ((ofText t).body ++ (trail ++ List.replicate (k + 1) ')')).head? =
      (ofText t).body.head? := List.head?_append_of_ne_nil _ visible
  have trimmed : Text.trim ((ofText t).body ++ (trail ++ List.replicate (k + 1) ')')) =
      (ofText t).body ++ (trail ++ List.replicate (k + 1) ')') := by
    refine trimEnds_eq_self (fun c head => ?_) fun c last => ?_
    · rw [front, ← trim_body_ofText] at head
      exact head?_trimEnds head
    · have isLast : c = ')' := by
        rw [← List.append_assoc, List.getLast?_append_of_ne_nil _ (by simp)] at last
        exact List.eq_of_mem_replicate (List.mem_of_getLast? last)
      rw [isLast]
      decide
  have answer := exchange _ trimmed fun head => front ▸ head
  rw [ofText_append_blanks trailing] at answer
  refine ⟨trail, trailing, ?_⟩
  conv => lhs; rw [whole]
  rw [← answer]
  simp

/-- A formula lacks as many `)` as its body. -/
theorem leftOpen?_body {t : Text} (closed : t.LiteralsClosed) :
    (ofText t).body.LiteralsClosed ∧
      Piece.leftOpen? 0 (pieces (ofText t).body) = Piece.leftOpen? 0 (pieces t) := by
  have holds : t.Holds t.literals := ⟨closed, rfl⟩
  have bodyClosed := holds.body.closed
  obtain ⟨lead, trail, whole, leading, trailing, -⟩ := exists_frame t
  obtain ⟨leadOther, trailOther⟩ := Text.not_mem_frame leading trailing
  have frame : pieces t = lead.map .char ++ pieces (ofText t).body ++ trail.map .char := by
    conv => lhs; rw [whole]
    exact Text.pieces_frame bodyClosed (leadOther _ (by decide)) (trailOther _ (by decide))
  refine ⟨bodyClosed, ?_⟩
  rw [frame, Piece.leftOpen?_append, Piece.leftOpen?_append,
    Piece.leftOpen?_chars (leadOther _ (by decide)) (leadOther _ (by decide)), Option.bind_some]
  cases Piece.leftOpen? 0 (pieces (ofText t).body) with
  | none => rfl
  | some left =>
    exact (Piece.leftOpen?_chars (trailOther _ (by decide)) (trailOther _ (by decide))).symm

/-- A formula is accepted if its body has its literals closed and its parentheses paired. -/
theorem tree?_of_paired (f : Formula) (closed : f.body.LiteralsClosed)
    (balanced : Piece.leftOpen? 0 (pieces f.body) = some 0) : f.tree? = .ok f.tree := by
  have none : f.body.scanFaults 0 [] = [] :=
    (Text.scanFaults_eq_nil_iff _ 0 []).2 ⟨closed, Piece.balanced_iff_leftOpen?.2 balanced⟩
  have faultless : f.faults = [] := (none ▸ f.perm_faults).eq_nil
  rw [tree?_eq_first_fault, faultless]

/-- A formula with its literals closed and its parentheses paired is accepted. -/
theorem tree?_of_balanced {t : Text} (closed : t.LiteralsClosed)
    (balanced : Piece.leftOpen? 0 (pieces t) = some 0) :
    (ofText t).tree? = .ok (ofText t).tree := by
  obtain ⟨bodyClosed, same⟩ := leftOpen?_body closed
  exact (ofText t).tree?_of_paired bodyClosed (same.trans balanced)

/-- The tree of a completed body, but for texts of nodes with parts. -/
theorem erased_tree_completed (f : Formula) {blanks : Text} {k : Nat}
    (closed : f.body.LiteralsClosed) (blank : ∀ c ∈ blanks, Text.isBlank c = true)
    (left : Piece.leftOpen? 0 (pieces f.body) = some k) (missing : k ≠ 0) :
    (Formula.mk f.hasEquals (f.body ++ (blanks ++ List.replicate k ')'))).tree.erased =
      f.tree.erased := by
  obtain ⟨bs, cs, whole, completes⟩ := completes_marks closed blank left
  have opens : Enclosed 0 (marks f.body) ∧ openAfter 0 (marks f.body) = k := by
    rwa [← map_piece_marks, leftOpen?_map_piece] at left
  have genuine := allGenuine_marks f.body
  obtain ⟨-, enclosed, -⟩ := completes.readable genuine opens.1
  have separators : (Formula.mk f.hasEquals
      (f.body ++ (blanks ++ List.replicate k ')'))).separator = f.separator :=
    Separator.ofText_append closed (Text.not_mem_closers blank k (by decide) (by decide))
      (Text.not_mem_closers blank k (by decide) (by decide))
  have parts : Expression.erasedEach
      (read f.separator false [] (marks f.body ++ (bs ++ cs))).value =
      Expression.erasedEach (read f.separator false [] (marks f.body)).value :=
    erased_read_completed false [] ⟨genuine, opens.1⟩ completes
  rw [tree_parts, tree_parts, separators, whole, enclosed.cutAtClose_eq, opens.1.cutAtClose_eq,
    strayLeaf, List.append_nil, List.append_nil]
  refine Expression.erased_plain parts fun empty => ?_
  -- there is a parenthesis, so there are parts
  obtain ⟨m, met, isOpening⟩ := exists_opening (opens.2.symm ▸ Nat.pos_of_ne_zero missing)
  have noLayout : m.isLayout = false := by
    by_contra layout
    rw [Bool.not_eq_false] at layout
    exact (genuine m met).char?_ne_of_layout layout (by decide) (by decide) isOpening
  rw [empty, Expression.erasedEach, eq_comm, Expression.erasedEach_eq_nil] at parts
  exact absurd parts (value_read_ne_nil false [] ⟨genuine, opens.1⟩ (.inr ⟨m, met, noLayout⟩))

end Formula

/-- Formulas whose trees differ in source texts only are beautified alike. -/
theorem beautify_of_erased {style : Style} {s t : Text} (narrow : style.indentSize ≤ widestIndent)
    (equals : (Formula.ofText s).hasEquals = (Formula.ofText t).hasEquals)
    (erased : (Formula.ofText s).tree.erased = (Formula.ofText t).tree.erased) :
    beautify style s = beautify style t := by
  have layouts : layout style 0 (Formula.ofText s).tree =
      layout style 0 (Formula.ofText t).tree := by
    rw [← layout_erased style 0 _ (Formula.sound_tree _), erased,
      layout_erased style 0 _ (Formula.sound_tree _)]
  rw [beautify_eq narrow, beautify_eq narrow, layouts, Formula.withEquals, Formula.withEquals,
    equals]

/-- A formula with its literals closed that lacks only the `)` of `k` parentheses is read, but for
the texts of nodes with parts, and beautified like the formula with these `)` at its end, which is
accepted. -/
theorem tree_completed (style : Style) {t : Text} {k : Nat} (closed : t.LiteralsClosed)
    (left : Piece.leftOpen? 0 (pieces t) = some k) :
    (Formula.ofText (t ++ List.replicate k ')')).tree? =
        .ok (Formula.ofText (t ++ List.replicate k ')')).tree ∧
      (Formula.ofText (t ++ List.replicate k ')')).tree.erased =
        (Formula.ofText t).tree.erased ∧
      (style.indentSize ≤ widestIndent →
        beautify style (t ++ List.replicate k ')') = beautify style t) := by
  rcases k with _ | k
  · rw [List.replicate_zero, List.append_nil]
    exact ⟨Formula.tree?_of_balanced closed left, rfl, fun _ => rfl⟩
  · obtain ⟨bodyClosed, same⟩ := Formula.leftOpen?_body closed
    have visible : (Formula.ofText t).body ≠ [] := fun empty => by
      rw [left, empty, pieces, Piece.leftOpen?] at same
      cases same
    obtain ⟨blanks, blank, formula⟩ := Formula.ofText_append_closers visible k
    have erased : (Formula.ofText (t ++ List.replicate (k + 1) ')')).tree.erased =
        (Formula.ofText t).tree.erased := by
      rw [formula]
      exact Formula.erased_tree_completed _ bodyClosed blank (same.trans left) (Nat.succ_ne_zero k)
    have noQuote : '"' ∉ List.replicate (k + 1) ')' := fun met =>
      absurd (List.eq_of_mem_replicate met) (by decide)
    have holds : t.Holds t.literals := ⟨closed, rfl⟩
    have paired : Piece.leftOpen? 0 (pieces (t ++ List.replicate (k + 1) ')')) = some 0 := by
      rw [Text.pieces_append_chars closed noQuote, Piece.leftOpen?_append, left]
      exact Piece.leftOpen?_closers (k + 1)
    exact ⟨Formula.tree?_of_balanced (holds.append_right noQuote).closed paired, erased,
      fun narrow => beautify_of_erased narrow (by rw [formula]) erased⟩

/-- A call and a group that are left open in a call, behind a quoted parenthesis and before blanks.
-/
theorem tree_completed_if :
    Piece.leftOpen? 0 (pieces " = if((a1>1)*sum(b2, \"(\", (c3 , ".toList) = some 3 ∧
      (Formula.ofText " = if((a1>1)*sum(b2, \"(\", (c3 , )))".toList).tree?.isOk = true ∧
      beautify .standard " = if((a1>1)*sum(b2, \"(\", (c3 , )))".toList =
        beautify .standard " = if((a1>1)*sum(b2, \"(\", (c3 , ".toList := by
  have closed : Text.LiteralsClosed " = if((a1>1)*sum(b2, \"(\", (c3 , ".toList := by
    show ∀ p ∈ _, _
    decide +kernel
  have left : Piece.leftOpen? 0 (pieces " = if((a1>1)*sum(b2, \"(\", (c3 , ".toList) = some 3 := by
    decide +kernel
  obtain ⟨accepted, -, same⟩ := tree_completed .standard closed left
  refine ⟨left, ?_, same (by decide)⟩
  exact congrArg Except.isOk accepted

end SheetFormula
