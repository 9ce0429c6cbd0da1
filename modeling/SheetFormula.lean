import SheetFormula.Format.Beautify
import SheetFormula.Format.StyleJson
import SheetFormula.Formula.Session
import SheetFormula.Proofs.Format.Beautify
import SheetFormula.Proofs.Text.Firm
import SheetFormula.Proofs.Marks.Placed
import SheetFormula.Proofs.Reading.Nodes
import SheetFormula.Proofs.Reading.Display
import SheetFormula.Proofs.Marks.Inside
import SheetFormula.Proofs.Reading.Openings
import SheetFormula.Proofs.Format.Strict
import SheetFormula.Proofs.Format.Misnamed
import SheetFormula.Proofs.Format.Bounded
import SheetFormula.Proofs.Marks.Unplaced
import SheetFormula.Proofs.Reading.Sources
import SheetFormula.Proofs.Reading.Semicolons
import SheetFormula.Proofs.Reading.Erased
import SheetFormula.Proofs.Format.Separators
import SheetFormula.Proofs.Text.Literals
import SheetFormula.Proofs.Format.Apart
import SheetFormula.Proofs.Format.Separated
import SheetFormula.Proofs.Format.Literals
import SheetFormula.Proofs.Reading.Sessions
import SheetFormula.Proofs.Reading.Shape
import SheetFormula.Proofs.Format.Completed
import SheetFormula.Proofs.Format.Connectors
import SheetFormula.Proofs.Format.Limits
import SheetFormula.Proofs.Format.EqualsSign
import SheetFormula.Proofs.Format.Unbroken
import SheetFormula.Proofs.Format.Signs
import SheetFormula.Proofs.Format.Repeated
import SheetFormula.Proofs.Format.Tiles
import SheetFormula.Proofs.Format.Laid
import SheetFormula.Proofs.Format.Lines
import SheetFormula.Proofs.Format.OneLine
import SheetFormula.Proofs.Format.Journal
import SheetFormula.Proofs.Format.StyleJson
import SheetFormula.Proofs.Text.Quoting
import SheetFormula.Proofs.Marks.Spans
import SheetFormula.Proofs.Text.Numerals
import SheetFormula.Proofs.Marks.Covering
import SheetFormula.Proofs.Reading.Divided
import SheetFormula.Proofs.Reading.Joins
import SheetFormula.Proofs.Format.Typeset
import SheetFormula.Proofs.Format.Parted
import SheetFormula.Proofs.Format.Joined
import SheetFormula.Proofs.Format.Steady
import SheetFormula.Proofs.Format.Stable
