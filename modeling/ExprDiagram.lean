import ExprDiagram.CommandLine.Run
import ExprDiagram.Main
import ExprDiagram.Proofs.Grammar.Cursor
import ExprDiagram.Proofs.Grammar.Recognition
import ExprDiagram.Proofs.Meaning.Elaboration
import ExprDiagram.Proofs.Placement.Equivalence
import ExprDiagram.Proofs.Layout.Separation
import ExprDiagram.Proofs.Layout.Spanning
import ExprDiagram.Proofs.Grammar.Continuation
import ExprDiagram.Proofs.Layout.Sharing
import ExprDiagram.Proofs.Layout.Totality
import ExprDiagram.Proofs.Grammar.Spacing
import ExprDiagram.Proofs.Diagram.Circles
import ExprDiagram.Proofs.Drawing.Columns
import ExprDiagram.Proofs.Drawing.Grid
import ExprDiagram.Proofs.Drawing.Lines
import ExprDiagram.Proofs.Layout.Words
import ExprDiagram.Proofs.Drawing.Labels
import ExprDiagram.Proofs.Drawing.Arrows
import ExprDiagram.Proofs.Drawing.Buses
import ExprDiagram.Proofs.Svg.Geometry
import ExprDiagram.Proofs.Record.Numerals
import ExprDiagram.Proofs.Record.Scanning
import ExprDiagram.Proofs.Record.Decoding
import ExprDiagram.Proofs.Record.Records
import ExprDiagram.Proofs.Diagram.Determined
import ExprDiagram.Proofs.Grammar.Unambiguous
import ExprDiagram.Proofs.Meaning.Removal
import ExprDiagram.Proofs.Meaning.Warnings
import ExprDiagram.Proofs.Layout.Removal
import ExprDiagram.Proofs.Svg.Elements
import ExprDiagram.Proofs.CommandLine.AllOrNothing
import ExprDiagram.Proofs.Diagram.Ways
import ExprDiagram.Proofs.Diagram.Selection
import ExprDiagram.Proofs.Placement.Rigidity
import ExprDiagram.Proofs.Diagram.Renaming
import ExprDiagram.Proofs.Layout.Renumbering
import ExprDiagram.Proofs.Grammar.Relabelling
import ExprDiagram.Proofs.Meaning.Relabelling
import ExprDiagram.Proofs.Layout.Relabelling
import ExprDiagram.Proofs.Drawing.Glyphs
import ExprDiagram.Proofs.Drawing.Wiring
import ExprDiagram.Proofs.Meaning.Storage
import ExprDiagram.Proofs.Placement.Course
import ExprDiagram.Proofs.Placement.Tightness
import ExprDiagram.Proofs.Placement.Origins
import ExprDiagram.Proofs.Trees.Postorder
import ExprDiagram.Proofs.Numeral.Rounding
import ExprDiagram.Proofs.Numeral.Hundredths
