/-
This file writes layouts in the form that the settings ask for, and whole texts by way of their
layouts.
-/

import ExprDiagram.Conversion
import ExprDiagram.Record.Layout
import ExprDiagram.Render.Config
import ExprDiagram.Svg.Document

namespace ExprDiagram

/-- A layout in the form that the settings ask for. A drawing with characters fails when its grid is
too great to be stored. -/
def Layout.render (config : RenderConfig) (layout : Layout Float) : Except DrawError String :=
  match config.format with
  | .json => .ok (layout.records Json.indented)
  | .svg => inRange (layout.svg? config.page)
  | .ascii => inRange (layout.storedChart? config.chart)

/-- The layout of a text in the form that the settings ask for. -/
def renderSource (config : RenderConfig) (source : String) : Except ConversionError String := do
  let layout ← convert source
  (layout.render config).mapError .draw

end ExprDiagram
