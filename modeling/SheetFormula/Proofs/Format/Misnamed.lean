import SheetFormula.Proofs.Format.Strict

/-!
# Misnamed calls

The calls of a formula have known names, but a tree can also be built by hand, with calls whose
names are no names. Strict formatting answers with the fault of the first such call. Lenient
formatting writes the source text of that call in its place, and lays out everything around it as
it would around any other text of that node (`format_misnamed`).

## Main definitions

* `Text.IsName`, `Expression.AllNamed` — proper names, and nodes whose calls have them
* `Holder`, `Holder.textOf` — a node without its parts, and its layout from those of its parts
* `Layer`, `Place` — a node around a place with its other parts, and all of them from the root on
* `Place.fill`, `Place.front`, `Place.around` — the tree with a node at the place, the nodes of the
  tree in front of it, and the layout with a text at the place
* `FirstMisnamed` — a misnamed call of a tree, with no other one in front of it
-/

namespace SheetFormula

/-! ## Names -/

/-- A text that can be the name of a call. -/
def Text.IsName (t : Text) : Prop :=
  t ≠ [] ∧ ∀ c ∈ t, Text.isNameChar c = true

/-- All calls among the nodes have proper names. -/
def Expression.AllNamed (ns : List Expression) : Prop :=
  ∀ name source arguments, .call name source arguments ∈ ns → name.IsName

theorem nameFault?_eq_none_iff {name : Text} : nameFault? name = none ↔ name.IsName := by
  cases name with
  | nil => exact iff_of_false (Option.some_ne_none _) fun named => named.1 rfl
  | cons c name =>
    rw [nameFault?, if_neg (by simp), Text.IsName, ← List.all_eq_true]
    split
    · next letters => exact iff_of_true rfl ⟨List.cons_ne_nil c name, letters⟩
    · next other => exact iff_of_false (Option.some_ne_none _) fun named => other named.2

theorem nameFault?_eq_some {name : Text} {fault : FormatFault}
    (misnamed : nameFault? name = some fault) :
    fault = if name.isEmpty then .emptyName else .invalidName name := by
  unfold nameFault? at misnamed
  split at misnamed
  · next empty => rw [if_pos empty, Option.some.inj misnamed]
  · next nonempty =>
    rw [if_neg nonempty]
    split at misnamed
    · cases misnamed
    · exact (Option.some.inj misnamed).symm

namespace Expression

theorem allNamed_iff {ns : List Expression} :
    AllNamed ns ↔ ns.findSome? misnaming? = none := by
  rw [List.findSome?_eq_none_iff]
  constructor
  · intro named n met
    cases n with
    | call name source arguments => exact nameFault?_eq_none_iff.2 (named _ _ _ met)
    | plain | group | operator => rfl
  · intro proper name source arguments met
    exact nameFault?_eq_none_iff.1 (proper _ met)

theorem allNamed_append {ms ns : List Expression} :
    AllNamed (ms ++ ns) ↔ AllNamed ms ∧ AllNamed ns := by
  rw [allNamed_iff, allNamed_iff, allNamed_iff, List.findSome?_append, Option.or_eq_none_iff]

end Expression

open Expression

/-! ## Places -/

/-- A node without its parts. -/
inductive Holder where
  | plain (source : Text)
  | group (source : Text)
  | call (name source : Text)

/-- The text of parts in a row from the texts of the parts, with spaces where they belong. -/
def rowText : List Expression → List Text → Text
  | e :: es, t :: ts => t ++ (gapBetween e es ++ rowText es ts)
  | _, _ => []

namespace Holder

/-- The node with its parts. -/
def node : Holder → List Expression → Expression
  | plain source => .plain source
  | group source => .group source
  | call name source => .call name source

/-- The depth of the parts of a node at a depth. -/
def inside (depth : Nat) : Holder → Nat
  | plain _ => depth
  | group _ | call _ _ => depth + 1

/-- The layout of a node at a depth, from the texts of its parts. -/
def textOf (style : Style) (depth : Nat) (parts : List Expression) (texts : List Text) :
    Holder → Text
  | plain _ => rowText parts texts
  | group _ => groupText style depth (anyContainsCall parts) (rowText parts texts)
  | call name _ => callText style depth name parts texts

end Holder

/-- A node around a place, and its parts in front of the place and behind it. -/
structure Layer where
  holder : Holder
  before : List Expression
  behind : List Expression

/-- A place in a tree: the nodes around it, from the root on. -/
abbrev Place := List Layer

namespace Place

/-- The tree with a node at the place. -/
def fill (node : Expression) : Place → Expression
  | [] => node
  | layer :: inner => layer.holder.node (layer.before ++ fill node inner :: layer.behind)

/-- The nodes of the tree in front of the node at the place, each before its parts. -/
def front (node : Expression) : Place → List Expression
  | [] => []
  | layer :: inner =>
    fill node (layer :: inner) :: (nodesOfEach layer.before ++ front node inner)

/-- The depth of the place in a tree at a depth. -/
def depthFrom (depth : Nat) : Place → Nat
  | [] => depth
  | layer :: inner => depthFrom (layer.holder.inside depth) inner

/-- The layout of the tree at a depth, with a text for the node at the place. -/
def around (style : Style) (depth : Nat) (node : Expression) (text : Text) : Place → Text
  | [] => text
  | layer :: inner =>
    layer.holder.textOf style depth (layer.before ++ fill node inner :: layer.behind)
      (layoutEach style (layer.holder.inside depth) layer.before ++
        around style (layer.holder.inside depth) node text inner ::
          layoutEach style (layer.holder.inside depth) layer.behind)

end Place

open Place

variable {style : Style} {depth : Nat}

theorem layoutSequence_eq_rowText (es : List Expression) :
    layoutSequence style depth es = rowText es (layoutEach style depth es) := by
  induction es with
  | nil => rw [layoutSequence_nil, layoutEach_eq_map, List.map_nil, rowText.eq_def]
  | cons e es ih =>
    rw [layoutSequence_cons, ih, layoutEach_eq_map, layoutEach_eq_map, List.map_cons, rowText]

/-- The layout of a node with parts is made of the layouts of the parts. -/
theorem layout_node (holder : Holder) {parts : List Expression} (nonempty : parts ≠ [])
    (named : AllNamed [holder.node parts]) :
    layout style depth (holder.node parts) =
      holder.textOf style depth parts (layoutEach style (holder.inside depth) parts) := by
  cases holder with
  | plain source =>
    have visible : ¬parts.isEmpty = true := by simpa using nonempty
    exact (layout_plain.trans (if_neg visible)).trans (layoutSequence_eq_rowText parts)
  | group source =>
    exact layout_group.trans (congrArg _ (layoutSequence_eq_rowText parts))
  | call name source =>
    exact layout_call_of_named (nameFault?_eq_none_iff.2 (named _ _ _ List.mem_cons_self))

/-- A tree is laid out around the node at a place as around the text of that node. -/
theorem layout_fill (node : Expression) (place : Place) (named : AllNamed (place.front node)) :
    layout style depth (place.fill node) =
      place.around style depth node (layout style (place.depthFrom depth) node) := by
  induction place generalizing depth with
  | nil => rfl
  | cons layer inner ih =>
    rw [front, ← List.singleton_append, allNamed_append, allNamed_append] at named
    have first : AllNamed [layer.holder.node (layer.before ++ fill node inner :: layer.behind)] :=
      named.1
    rw [fill, layout_node layer.holder (by simp) first, layoutEach_eq_map, List.map_append,
      List.map_cons, ih named.2.2, ← layoutEach_eq_map, ← layoutEach_eq_map]
    rfl

theorem nodes_node (holder : Holder) (parts : List Expression) :
    (holder.node parts).nodes = holder.node parts :: nodesOfEach parts := by
  cases holder <;> exact nodes.eq_def _

/-- The nodes of a tree are those in front of a place, those at the place, and those behind it. -/
theorem nodes_fill (node : Expression) (place : Place) :
    ∃ behind, (place.fill node).nodes = place.front node ++ (node.nodes ++ behind) := by
  induction place with
  | nil => exact ⟨[], by rw [fill, front, List.append_nil, List.nil_append]⟩
  | cons layer inner ih =>
    obtain ⟨behind, whole⟩ := ih
    refine ⟨behind ++ nodesOfEach layer.behind, ?_⟩
    rw [front, fill, nodes_node, nodesOfEach_append, nodesOfEach, whole]
    simp only [List.append_assoc, List.cons_append]

/-! ## The first misnamed call -/

/-- A call of the tree without a proper name, and no such call in front of it. -/
structure FirstMisnamed (e : Expression) (fault : FormatFault) where
  place : Place
  name : Text
  source : Text
  arguments : List Expression
  whole : e = place.fill (.call name source arguments)
  isFault : nameFault? name = some fault
  front : AllNamed (place.front (.call name source arguments))

/-- The first misnamed call of a part is that of the whole, if none stands in front of the part. -/
def FirstMisnamed.inPart {part : Expression} {fault : FormatFault} (holder : Holder)
    (before behind : List Expression)
    (proper : (holder.node (before ++ part :: behind)).misnaming? = none)
    (named : AllNamed (nodesOfEach before)) (first : FirstMisnamed part fault) :
    FirstMisnamed (holder.node (before ++ part :: behind)) fault where
  place := ⟨holder, before, behind⟩ :: first.place
  name := first.name
  source := first.source
  arguments := first.arguments
  whole := by rw [fill, ← first.whole]
  isFault := first.isFault
  front := by
    rw [Place.front, fill, ← first.whole, ← List.singleton_append, allNamed_append,
      allNamed_append]
    refine ⟨allNamed_iff.2 ?_, named, first.front⟩
    rw [List.findSome?_cons_of_isNone (Option.isNone_iff_eq_none.2 proper)]
    rfl

mutual

/-- A tree with a misnamed call has a first one. -/
theorem nonempty_firstMisnamed (e : Expression) {fault : FormatFault}
    (misnamed : e.nodes.findSome? misnaming? = some fault) :
    Nonempty (FirstMisnamed e fault) := by
  match e with
  | .plain source parts =>
    rw [nodes, List.findSome?_cons_of_isNone (by rfl)] at misnamed
    obtain ⟨before, part, behind, rfl, named, ⟨first⟩⟩ :=
      exists_part_firstMisnamed parts misnamed
    exact ⟨first.inPart (.plain source) before behind rfl named⟩
  | .group source parts =>
    rw [nodes, List.findSome?_cons_of_isNone (by rfl)] at misnamed
    obtain ⟨before, part, behind, rfl, named, ⟨first⟩⟩ :=
      exists_part_firstMisnamed parts misnamed
    exact ⟨first.inPart (.group source) before behind rfl named⟩
  | .call name source arguments =>
    cases here : nameFault? name with
    | none =>
      rw [nodes, List.findSome?_cons_of_isNone (by rw [misnaming?, here]; rfl)] at misnamed
      obtain ⟨before, part, behind, rfl, named, ⟨first⟩⟩ :=
        exists_part_firstMisnamed arguments misnamed
      exact ⟨first.inPart (.call name source) before behind here named⟩
    | some other =>
      rw [nodes, List.findSome?_cons_of_isSome (by rw [misnaming?, here]; rfl), misnaming?]
        at misnamed
      exact ⟨⟨[], name, source, arguments, rfl, misnamed, fun _ _ _ met => nomatch met⟩⟩
  | .operator op =>
    rw [nodes] at misnamed
    cases misnamed

theorem exists_part_firstMisnamed (es : List Expression) {fault : FormatFault}
    (misnamed : (nodesOfEach es).findSome? misnaming? = some fault) :
    ∃ before part behind, es = before ++ part :: behind ∧ AllNamed (nodesOfEach before) ∧
      Nonempty (FirstMisnamed part fault) := by
  match es with
  | [] =>
    rw [nodesOfEach] at misnamed
    cases misnamed
  | e :: es =>
    rw [nodesOfEach, List.findSome?_append] at misnamed
    cases here : e.nodes.findSome? misnaming? with
    | some other =>
      rw [here] at misnamed
      refine ⟨[], e, es, rfl, ?_, nonempty_firstMisnamed e (here.trans misnamed)⟩
      exact allNamed_iff.2 (by rw [nodesOfEach]; rfl)
    | none =>
      rw [here, Option.none_or] at misnamed
      obtain ⟨before, part, behind, rfl, named, first⟩ := exists_part_firstMisnamed es misnamed
      refine ⟨e :: before, part, behind, rfl, ?_, first⟩
      rw [nodesOfEach, allNamed_append]
      exact ⟨allNamed_iff.2 here, named⟩

end

/-! ## Formatting -/

theorem formatted_eq (narrow : style.indentSize ≤ widestIndent) (tree : Expression) :
    formatted style tree = .ok (layout style 0 tree) := by
  have noFault : style.fault? = none := if_neg (Nat.not_lt.2 narrow)
  rw [formatted, formattedWith, noFault]
  rfl

theorem formatStrict_eq (narrow : style.indentSize ≤ widestIndent) {tree : Expression}
    (shallow : tree.depth < nestingLimit) :
    formatStrict style tree =
      match tree.nodes.findSome? misnaming? with
      | some fault => .error fault
      | none => .ok (layout style 0 tree) := by
  have noFault : style.fault? = none := if_neg (Nat.not_lt.2 narrow)
  have rendered := render_silentStrict_eq style 0 tree
    (fits_of_lt_nestingLimit narrow (by rwa [Nat.zero_add]))
  rw [silentStrict] at rendered
  rw [formatStrict, formatStrictWith, formatBy, noFault, rendered]
  cases tree.nodes.findSome? misnaming? <;> rfl

/-- Lenient formatting always has an answer. Strict formatting has the same answer if all calls have
proper names; otherwise it answers with the fault of the first call without one, and the lenient
answer has the source text of that call at its place, in the layout of the tree around it. -/
theorem format_misnamed (style : Style) (tree : Expression)
    (narrow : style.indentSize ≤ widestIndent) (shallow : tree.depth < nestingLimit) :
    ∃ text, formatted style tree = .ok text ∧
      ((∃ answer, formatStrict style tree = .ok answer) ↔ AllNamed tree.nodes) ∧
      (AllNamed tree.nodes → formatStrict style tree = .ok text) ∧
      (¬AllNamed tree.nodes → ∃ (place : Place) (name source : Text)
        (arguments behind : List Expression),
        tree = place.fill (.call name source arguments) ∧
        tree.nodes =
          place.front (.call name source arguments) ++ .call name source arguments :: behind ∧
        AllNamed (place.front (.call name source arguments)) ∧ ¬name.IsName ∧
        formatStrict style tree =
          .error (if name.isEmpty then .emptyName else .invalidName name) ∧
        text = place.around style 0 (.call name source arguments) source) := by
  have strict := formatStrict_eq narrow shallow
  refine ⟨_, formatted_eq narrow tree, ?_, ?_, ?_⟩
  · rw [strict, allNamed_iff]
    cases tree.nodes.findSome? misnaming? <;> simp
  · intro named
    rw [strict, allNamed_iff.1 named]
  · intro misnamed
    rw [allNamed_iff, ← Ne, Option.ne_none_iff_exists'] at misnamed
    obtain ⟨fault, found⟩ := misnamed
    obtain ⟨place, name, source, arguments, rfl, isFault, named⟩ :=
      nonempty_firstMisnamed tree found
    obtain ⟨behind, whole⟩ := nodes_fill (.call name source arguments) place
    rw [nodes] at whole
    refine ⟨place, name, source, arguments, _, rfl, whole, named, ?_, ?_, ?_⟩
    · intro isName
      rw [nameFault?_eq_none_iff.2 isName] at isFault
      cases isFault
    · rw [strict, found, nameFault?_eq_some isFault]
    · rw [layout_fill _ place named, layout_misnamed isFault]

/-- A call of two arguments: a group that holds a call without a name, and a misnamed call. -/
def misnamedSum : Expression :=
  .plain [] [.call "SUM".toList [] [
    .group [] [.leaf "a".toList, .operator .plus, .call [] "(b)".toList [.leaf "b".toList]],
    .call "NO NAME".toList "no name(1)".toList [.leaf "1".toList]]]

/-- The call without a name keeps its text in the broken group, which is the fault met first. -/
theorem format_misnamed_sum : ∃ (place : Place) (name source : Text) (arguments : List Expression),
    misnamedSum = place.fill (.call name source arguments) ∧ ¬name.IsName ∧
      formatStrict .standard misnamedSum =
        .error (if name.isEmpty then .emptyName else .invalidName name) ∧
      place.around .standard 0 (.call name source arguments) source =
        "SUM(\n    ├─ (\n        a + (b)\n    );\n    └─ no name(1)\n)".toList := by
  have shallow : misnamedSum.depth < nestingLimit := by decide +kernel
  have misnamed : ¬AllNamed misnamedSum.nodes := by
    rw [allNamed_iff]
    decide +kernel
  have laidOut : formatted .standard misnamedSum =
      .ok "SUM(\n    ├─ (\n        a + (b)\n    );\n    └─ no name(1)\n)".toList := by
    decide +kernel
  obtain ⟨text, lenient, -, -, first⟩ :=
    format_misnamed .standard misnamedSum (by decide) shallow
  obtain ⟨place, name, source, arguments, -, whole, -, -, noName, strict, rfl⟩ := first misnamed
  exact ⟨place, name, source, arguments, whole, noName, strict,
    Except.ok.inj (lenient.symm.trans laidOut)⟩

end SheetFormula
