/-
This file holds the settings that decide how a layout is written: the form of output and the
measures of each form. The name of a form may be written in capitals or small letters.
-/

import ExprDiagram.Drawing.Chart
import ExprDiagram.Svg.Page

namespace ExprDiagram

/-- The forms in which a layout can be written. -/
inductive OutputFormat where
  /-- Records for a program that does the drawing. -/
  | json
  /-- A vector drawing. -/
  | svg
  /-- A drawing with characters. -/
  | ascii
  deriving DecidableEq

namespace OutputFormat

/-- The name of each form. -/
def name : OutputFormat → String
  | json => "json"
  | svg => "svg"
  | ascii => "ascii"

/-- The form of a name, or what is wrong with it. Drawings with characters have two names. -/
def parse (text : String) : Except String OutputFormat :=
  let lower := text.map Char.toLower
  if lower = "json" then .ok json
  else if lower = "svg" then .ok svg
  else if lower = "ascii" ∨ lower = "text" then .ok ascii
  else .error s!"unknown output format '{lower}' (expected json, svg or ascii)"

end OutputFormat

/-- The settings for output. -/
structure RenderConfig where
  format : OutputFormat
  /-- Whether a drawing with characters may use the box set. -/
  unicode : Bool
  page : PageStyle Float
  /-- The number of columns for a distance of one in a drawing with characters; zero for as many as
  the longest label needs. -/
  chartColumnWidth : Nat
  /-- The number of lines from one row of labels to the next. -/
  chartRowHeight : Nat

namespace RenderConfig

/-- The settings that hold where nothing else is said. -/
def default : RenderConfig where
  format := .json
  unicode := true
  page := ⟨80.0, 120.0, 24.0, 20.0, 40.0⟩
  chartColumnWidth := 0
  chartRowHeight := 4

/-- The usual settings for a form of output. -/
def ofFormat (format : OutputFormat) : RenderConfig := { default with format }

/-- The style of a drawing with characters. -/
def chart (config : RenderConfig) : ChartStyle :=
  ⟨.ofUnicode config.unicode, config.chartColumnWidth, config.chartRowHeight⟩

end RenderConfig

end ExprDiagram
