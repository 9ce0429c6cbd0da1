import SheetFormula.Format.Style
import SheetFormula.Json.Skipping

/-!
# Styles in JSON

A style is written as an object with one member for every setting. It is read from an object that
may leave settings out, which then keep their standard values, and may hold other members, which
are skipped; or from an array of settings in their order, of which the last may be missing.

## Main definitions

* `Style.Flag`, `Style.Size`, `Style.Field` — the settings, their keys and their order
* `Style.toJson` — the style as an object
* `Style.ofJson` — the style of a text, or why there is none
-/

namespace SheetFormula.Style

open Json (Scanned next? expectChar expectWord)

/-! ## Settings -/

/-- The settings that are on or off. -/
inductive Flag where
  | nestingIndicators
  | operatorSpacing
  deriving DecidableEq

/-- The settings that are numbers. -/
inductive Size where
  | indent
  | inlineLength
  | inlineParams
  deriving DecidableEq

/-- A setting of a style. -/
inductive Field where
  | flag (flag : Flag)
  | size (size : Size)
  deriving DecidableEq

namespace Field

/-- The key of a setting. -/
def key : Field → Text
  | flag .nestingIndicators => "useNestingIndicators".toList
  | flag .operatorSpacing => "useOperatorSpacing".toList
  | size .indent => "indentSize".toList
  | size .inlineLength => "maxInlineLength".toList
  | size .inlineParams => "maxInlineParams".toList

/-- All settings in their order. -/
def all : List Field :=
  [flag .nestingIndicators, flag .operatorSpacing, size .indent, size .inlineLength,
    size .inlineParams]

/-- The setting with a key. -/
def ofKey? (key : Text) : Option Field :=
  all.find? fun field => field.key == key

end Field

/-- Whether a setting is on. -/
def flag (style : Style) : Flag → Bool
  | .nestingIndicators => style.useNestingIndicators
  | .operatorSpacing => style.useOperatorSpacing

/-- The number of a setting. -/
def size (style : Style) : Size → Nat
  | .indent => style.indentSize
  | .inlineLength => style.maxInlineLength
  | .inlineParams => style.maxInlineParams

/-- The style with a setting switched on or off. -/
def setFlag (style : Style) (flag : Flag) (value : Bool) : Style :=
  match flag with
  | .nestingIndicators => { style with useNestingIndicators := value }
  | .operatorSpacing => { style with useOperatorSpacing := value }

/-- The style with another number for a setting. -/
def setSize (style : Style) (size : Size) (value : Nat) : Style :=
  match size with
  | .indent => { style with indentSize := value }
  | .inlineLength => { style with maxInlineLength := value }
  | .inlineParams => { style with maxInlineParams := value }

/-! ## Writing -/

/-- The value of a setting. -/
def valueText (style : Style) : Field → Text
  | .flag flag => (if style.flag flag then "true" else "false").toList
  | .size size => Nat.toDigits 10 (style.size size)

/-- The member of a setting. -/
def memberText (style : Style) (field : Field) : Text :=
  ['"'] ++ field.key ++ ['"', ':'] ++ style.valueText field

/-- The style as an object without blanks. -/
def toJson (style : Style) : Text :=
  ['\x7b'] ++ Text.joined [','] (Field.all.map style.memberText) ++ ['\x7d']

/-! ## Reading -/

/-- Reads a number that is not asked for. -/
def numberFault (t : Text) : Json.Fault :=
  match Json.scanNumeral .truncated t with
  | .error fault => fault
  | .ok n => if n.value.isTooLarge then .malformed else .mistyped

/-- Reads a word that is not asked for. -/
def wordFault (word t : Text) : Json.Fault :=
  match expectWord word t with
  | .error fault => fault
  | .ok _ => .mistyped

/-- The fault of a value of the wrong type, which begins with `c`: words, numbers and strings are
read to their end and must be well formed. -/
def typeFault (c : Char) (t : Text) : Json.Fault :=
  if c = 'n' then wordFault ['u', 'l', 'l'] t
  else if c = 't' then wordFault ['r', 'u', 'e'] t
  else if c = 'f' then wordFault ['a', 'l', 's', 'e'] t
  else if c = '-' then numberFault t
  else if c.isDigit then numberFault (c :: t)
  else if c = '"' then
    match Json.readQuoted true t with
    | .error fault => fault
    | .ok _ => .mistyped
  else if c = '[' ∨ c = '\x7b' then .mistyped
  else .malformed

/-- Reads a truth value that begins with `c`. -/
def readFlag (c : Char) (t : Text) : Except Json.Fault (Scanned Bool (c :: t)) :=
  if c = 't' then (Json.skipWord ['r', 'u', 'e'] c t).map (·.withValue true)
  else if c = 'f' then (Json.skipWord ['a', 'l', 's', 'e'] c t).map (·.withValue false)
  else .error (typeFault c t)

/-- Reads a natural number that begins with `c`. -/
def readSize (c : Char) (t : Text) : Except Json.Fault (Scanned Nat (c :: t)) :=
  if c.isDigit then
    match Json.scanNumeral .truncated (c :: t) with
    | .error fault => .error fault
    | .ok n =>
      match n.value.natural? with
      | some value => .ok (n.withValue value)
      | none => .error (if n.value.isTooLarge then .malformed else .mistyped)
  else .error (typeFault c t)

/-- Reads the value of a setting, which begins with `c`, into a style. -/
def readField (style : Style) (field : Field) (c : Char) (t : Text) :
    Except Json.Fault (Scanned Style (c :: t)) :=
  match field with
  | .flag flag => (readFlag c t).map fun value => value.withValue (style.setFlag flag value.value)
  | .size size => (readSize c t).map fun value => value.withValue (style.setSize size value.value)

/-- The settings read so far and their style. -/
structure Given where
  fields : List Field
  style : Style

/-- Nothing is given yet. -/
def Given.none : Given :=
  ⟨[], .standard⟩

/-- Reads a member behind the quote that opens its key. A setting may be given once; a member that
is no setting is skipped. -/
def readMember (given : Given) (t : Text) : Except Json.Fault (Scanned Given t) := do
  let key ← Json.readQuoted true t
  match Field.ofKey? key.value with
  | some field =>
    if field ∈ given.fields then throw .mistyped
    let colon ← expectChar ':' key.rest
    match next? colon.rest with
    | none => throw .truncated
    | some found =>
      let value ← readField given.style field found.value found.rest
      pure ⟨⟨field :: given.fields, value.value⟩, value.rest,
        Nat.lt_trans (Nat.lt_of_lt_of_le value.shorter found.shorter)
          (Nat.lt_trans colon.shorter key.shorter)⟩
  | none =>
    let colon ← expectChar ':' key.rest
    let value ← Json.skipValue colon.rest
    pure ⟨given, value.rest,
      Nat.lt_trans value.shorter (Nat.lt_trans colon.shorter key.shorter)⟩

/-- Reads the members of an object up to its end: all of them, or those behind another one. -/
def readMembers (first : Bool) (given : Given) (t : Text) : Except Json.Fault (Scanned Given t) :=
  match next? t with
  | none => .error .truncated
  | some found =>
    if found.value = '\x7d' then .ok (found.withValue given)
    else if first then
      if found.value = '"' then
        match readMember given found.rest with
        | .error fault => .error fault
        | .ok member =>
          (readMembers false member.value member.rest).map
            (·.widen (Nat.le_of_lt (Nat.lt_trans member.shorter found.shorter)))
      else .error .malformed
    else if found.value = ',' then
      match expectChar '"' found.rest with
      | .error fault => .error fault
      | .ok quote =>
        match readMember given quote.rest with
        | .error fault => .error fault
        | .ok member =>
          (readMembers false member.value member.rest).map
            (·.widen (Nat.le_of_lt (Nat.lt_trans member.shorter
              (Nat.lt_trans quote.shorter found.shorter))))
    else .error .malformed
termination_by t.length
decreasing_by
  · exact Nat.lt_trans member.shorter found.shorter
  · exact Nat.lt_trans member.shorter (Nat.lt_trans quote.shorter found.shorter)

/-- Reads the elements of an array up to its end as the settings listed: all of them, or those
behind another one. More elements than settings are no style. -/
def readElements (first : Bool) (style : Style) :
    List Field → Text → Except Json.Fault (Style × Text)
  | [], t =>
    match next? t with
    | none => .error .truncated
    | some found => if found.value = ']' then .ok (style, found.rest) else .error .malformed
  | field :: fields, t =>
    match next? t with
    | none => .error .truncated
    | some found =>
      if found.value = ']' then .ok (style, found.rest)
      else if first then
        match readField style field found.value found.rest with
        | .error fault => .error fault
        | .ok value => readElements false value.value fields value.rest
      else if found.value = ',' then
        match next? found.rest with
        | none => .error .truncated
        | some start =>
          if start.value = ']' then .error .malformed
          else
            match readField style field start.value start.rest with
            | .error fault => .error fault
            | .ok value => readElements false value.value fields value.rest
      else .error .malformed

/-- Reads the settings of a text, up to what stands behind them. -/
def readSettings (t : Text) : Except Json.Fault (Style × Text) :=
  match next? t with
  | none => .error .truncated
  | some found =>
    if found.value = '[' then readElements true .standard Field.all found.rest
    else if found.value = '\x7b' then
      (readMembers true .none found.rest).map fun given => (given.value.style, given.rest)
    else .error (typeFault found.value found.rest)

/-- Why a text gives no style. -/
inductive TextFault where
  /-- The text is no JSON, or not that of a style. -/
  | unreadable (fault : Json.Fault)
  /-- The text is that of a style that no layout can honour. -/
  | refused (fault : FormatFault)
  deriving DecidableEq

/-- The style that a text describes. -/
def ofJson (t : Text) : Except TextFault Style :=
  match readSettings t with
  | .error fault => .error (.unreadable fault)
  | .ok (style, rest) =>
    if rest.all Json.isBlank then
      match style.fault? with
      | some fault => .error (.refused fault)
      | none => .ok style
    else .error (.unreadable .malformed)

end SheetFormula.Style
