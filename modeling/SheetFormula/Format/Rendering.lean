import SheetFormula.Format.Journal
import SheetFormula.Format.Padding
import SheetFormula.Format.Style
import SheetFormula.Formula.Expression
import SheetFormula.Text.Quoted

/-!
# Rendering

An expression is laid out from the leaves up. A call stays on one line if it has few and short
arguments and none of them holds a call; otherwise every argument gets a line of its own, one step
further in, with a connector in front. A group stays on one line if it is short and holds no call.

## Main definitions

* `argumentConnector`, `callInline`, `callBroken`, `fitsOneLine`, `groupText`, `gapBetween` — the
  forms of the parts
* `RenderEvents` — what rendering meets on its way
* `render`, `renderSequence`, `renderEach` — an expression, parts in a row, and single parts
* `format`, `formatted`, `formatStrict` — an expression in a style: as a text at any rate, or with
  the faults of the style, or with all faults
* `formattedBoundedWith` — a formatted expression, with widths that are counted in words

## Design notes

Rendering breaks calls, indents lines and meets calls whose name is no name. What happens then is
left to the caller as actions of any monad, which may write lines into a journal. The strict caller
answers with the fault of the name, or of an indentation whose width does not fit into a word. The
lenient one keeps the source text of a call in place of such a fault inside of it
(`RenderEvents.bounded`).

No tree of any practical size is as deep as that takes. So lenient rendering is also given with
widths of any size, where it meets calls without a proper name only (`RenderEvents.lenient`). The
two are the same for all trees that are less deep than `nestingLimit` (`formattedBoundedWith_eq`).
-/

namespace SheetFormula

/-! ## The forms of the parts -/

/-- Groups of at least so many characters are broken. -/
def groupWidthLimit : Nat := 50

/-- The connector in front of an argument at a depth. Deeper ones stand further in, so that the
branches line up. -/
def argumentConnector (depth : Nat) (isLast : Bool) : Text :=
  match depth with
  | 0 => []
  | outer + 1 => Text.spaces (2 * outer) ++ [if isLast then '└' else '├', '─', ' ']

/-- The indentation at a depth. -/
def Style.indent (style : Style) (depth : Nat) : Text :=
  Text.spaces (style.indentSize * depth)

/-- The text of a leaf. -/
def Style.leaf (style : Style) (source : Text) : Text :=
  if style.useOperatorSpacing then Text.spaced source else source

/-- The fault of a name that is no function name. -/
def nameFault? (name : Text) : Option FormatFault :=
  if name.isEmpty then some .emptyName
  else if name.all Text.isNameChar then none
  else some (.invalidName name)

/-- Whether a space separates two neighbours: one of them is a spaced operator, and neither is a
leaf without text beside another leaf or operator. -/
def needsSpace (left right : Expression) : Bool :=
  match left.edgeLexeme, right.edgeLexeme with
  | some l, some r => !l.isEmpty && !r.isEmpty && (l.isSpacedOperator || r.isSpacedOperator)
  | l, r => l.any Text.isSpacedOperator || r.any Text.isSpacedOperator

/-- What separates a part from those behind it. -/
def gapBetween (left : Expression) : List Expression → Text
  | [] => []
  | right :: _ => if needsSpace left right then [' '] else []

/-- Whether a group keeps its parts on one line. -/
def groupFits (holdsCall : Bool) (content : Text) : Bool :=
  !content.contains '\n' && content.length < groupWidthLimit && !holdsCall

/-- A group at a depth, from the text of its parts. -/
def groupText (style : Style) (depth : Nat) (holdsCall : Bool) (content : Text) : Text :=
  if groupFits holdsCall content then '(' :: content ++ [')']
  else
    '(' :: '\n' :: (style.indent (depth + 1) ++ (content ++ '\n' :: (style.indent depth ++ [')'])))

/-- Whether a call keeps its arguments, rendered so, on one line. -/
def fitsOneLine (style : Style) (arguments : List Expression) (rendered : List Text) : Bool :=
  !(1 < arguments.length && style.maxInlineParams < arguments.length) &&
    !arguments.any (fun a => a.isCall || (a.isCompound && a.containsCall)) &&
    rendered.flatten.length ≤ style.maxInlineLength

/-- A call on one line. -/
def callInline (name : Text) (rendered : List Text) : Text :=
  name ++ '(' :: (Text.joined [';', ' '] rendered ++ [')'])

/-- The lines of the arguments of a broken call at a depth. -/
def argumentLines (style : Style) (depth : Nat) : List Text → Text
  | [] => []
  | text :: texts =>
    style.indent (depth + 1) ++
      ((if style.useNestingIndicators then argumentConnector (depth + 1) texts.isEmpty else []) ++
        (text ++ ((if texts.isEmpty then [] else [';']) ++
          '\n' :: argumentLines style depth texts)))

/-- A call at a depth with one argument on each line. -/
def callBroken (style : Style) (depth : Nat) (name : Text) (rendered : List Text) : Text :=
  name ++ '(' :: '\n' :: (argumentLines style depth rendered ++ (style.indent depth ++ [')']))

/-! ## Expressions -/

/-- What rendering meets on its way. -/
structure RenderEvents (m : Type → Type) where
  /-- A call is broken over several lines. -/
  broken (name : Text) (arguments depth : Nat) : m Unit
  /-- A line is indented. -/
  indented (depth : Nat) : m Unit
  /-- A call has no proper name; the answer stands in its place. -/
  misnamed (fault : FormatFault) (source : Text) : m Text
  /-- A call is rendered; the answer is its text, unless a fault is kept inside of the call. -/
  called (source : Text) (rendered : m Text) : m Text := rendered

section Rendering

variable {m : Type → Type} [Monad m] (events : RenderEvents m) (style : Style)

/-- The lines inside a group or call at a depth are indented, and the line that closes it. -/
def reportIndents (depth : Nat) : m Unit := do
  events.indented (depth + 1)
  events.indented depth

/-- A group at a depth, from the text of its parts. -/
def renderGroup (depth : Nat) (holdsCall : Bool) (content : Text) : m Text :=
  if groupFits holdsCall content then pure (groupText style depth holdsCall content)
  else do
    reportIndents events depth
    pure (groupText style depth holdsCall content)

/-- A call with proper name at a depth, from its rendered arguments. -/
def renderCall (depth : Nat) (name : Text) (arguments : List Expression)
    (rendered : List Text) : m Text :=
  if fitsOneLine style arguments rendered then pure (callInline name rendered)
  else do
    events.broken name arguments.length depth
    reportIndents events depth
    pure (callBroken style depth name rendered)

mutual

/-- An expression at a depth. -/
def render (depth : Nat) : Expression → m Text
  | .plain source parts =>
    if parts.isEmpty then pure (style.leaf source) else renderSequence depth parts
  | .group _ parts => do
    let content ← renderSequence (depth + 1) parts
    renderGroup events style depth (Expression.anyContainsCall parts) content
  | .call name source arguments =>
    events.called source <|
      match nameFault? name with
      | some fault => events.misnamed fault source
      | none => do
        let rendered ← renderEach (depth + 1) arguments
        if arguments.isEmpty then pure (callInline name [])
        else renderCall events style depth name arguments rendered
  | .operator op => pure op.lexeme

/-- Parts in a row at a depth, with spaces where they belong. -/
def renderSequence (depth : Nat) : List Expression → m Text
  | [] => pure []
  | e :: es => do
    let first ← render depth e
    let others ← renderSequence depth es
    pure (first ++ (gapBetween e es ++ others))

/-- Each of several expressions at a depth. -/
def renderEach (depth : Nat) : List Expression → m (List Text)
  | [] => pure []
  | e :: es => do
    let first ← render depth e
    let others ← renderEach depth es
    pure (first :: others)

end

/-! ## Expressions in a style -/

/-- Tells a journal about a broken call. -/
def writeBroken {n : Type → Type} (sink : Sink n) (name : Text) (arguments depth : Nat) :
    n Unit :=
  sink.write .debug "FORMAT"
    s!"{String.ofList name} wraps {arguments} argument(s) at depth {depth}"

/-- In place of a fault inside of a call stands the source text of the call. -/
def keepSource (sink : Sink m) (source : Text) (fault : FormatFault) : m Text := do
  sink.write .warn "FORMAT"
    s!"{fault.message}; keeping source text {String.ofList (Text.quoted source)}"
  pure source

/-- A call without a proper name keeps its source text. -/
def RenderEvents.lenient (sink : Sink m) : RenderEvents m where
  broken := writeBroken sink
  indented _ := pure ()
  misnamed fault source := keepSource sink source fault

/-- A call without a proper name ends the rendering, and so does an indentation that overflows. -/
def RenderEvents.strict (sink : Sink m) : RenderEvents (ExceptT FormatFault m) where
  broken name arguments depth := ExceptT.lift (writeBroken sink name arguments depth)
  indented depth :=
    match style.indentFault? depth with
    | some fault => throw fault
    | none => pure ()
  misnamed fault _ := throw fault

/-- What would end the rendering ends that of the innermost call around it, which keeps its source
text. -/
def RenderEvents.bounded (sink : Sink m) : RenderEvents (ExceptT FormatFault m) :=
  { strict style sink with
    called := fun source rendered =>
      tryCatch rendered fun fault => ExceptT.lift (keepSource sink source fault) }

/-- The expression in a style, or the fault of the style. -/
def formattedWith (sink : Sink m) (tree : Expression) : m (Except FormatFault Text) :=
  match style.fault? with
  | some fault => pure (.error fault)
  | none => .ok <$> render (.lenient sink) style 0 tree

/-- The expression in a style, or the fault of the style or the rendering. -/
def formatBy (events : RenderEvents (ExceptT FormatFault m)) (tree : Expression) :
    m (Except FormatFault Text) :=
  match style.fault? with
  | some fault => pure (.error fault)
  | none => (render events style 0 tree).run

/-- The expression in a style, or the fault of the style, or of an indentation outside of calls. -/
def formattedBoundedWith (sink : Sink m) (tree : Expression) : m (Except FormatFault Text) :=
  formatBy style (.bounded style sink) tree

/-- The expression in a style, or the first fault. -/
def formatStrictWith (sink : Sink m) (tree : Expression) : m (Except FormatFault Text) :=
  formatBy style (.strict style sink) tree

/-- The expression in a style; its source text if the style is at fault. -/
def formatWith (sink : Sink m) (tree : Expression) : m Text := do
  match ← formattedWith style sink tree with
  | .ok text => pure text
  | .error fault => do
    sink.write .error "FORMAT" s!"Format failed, keeping source text: {fault.message}"
    pure tree.source

end Rendering

/-- The expression in a style, or the fault of the style. -/
def formatted (style : Style) (tree : Expression) : Except FormatFault Text :=
  Id.run (formattedWith style .silent tree)

/-- The expression in a style; its source text if the style is at fault. -/
def format (style : Style) (tree : Expression) : Text :=
  Id.run (formatWith style .silent tree)

/-- The expression in a style, or the first fault. -/
def formatStrict (style : Style) (tree : Expression) : Except FormatFault Text :=
  Id.run (formatStrictWith style .silent tree)

end SheetFormula
