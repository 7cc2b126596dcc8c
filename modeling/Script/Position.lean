import Script.Text

/-! # Positions

A position names a place in a source text by line and column, both counted from one.  It may carry
the text of its line, which a message then shows with a caret under the column. -/

namespace Script

/-- A place in a source text. -/
structure Position where
  /-- The line, counted from one. -/
  line : Nat
  /-- The column, counted from one in characters. -/
  column : Nat
  /-- The text of the line, empty while it is not known. -/
  sourceLine : String := ""
  deriving DecidableEq

namespace Position

/-- The place that is given when no token is left to point at. -/
def nowhere : Position := ⟨0, 0, ""⟩

/-- Fills in the text of the position's line. -/
def inSource (p : Position) (source : String) : Position :=
  { p with sourceLine := String.ofList (Text.shownLine source.toList p.line) }

/-- The line and column in words. -/
def describe (p : Position) : String :=
  s!"line {p.line}, column {p.column}"

/-- The line with a caret under the column, or nothing when the line is not known. -/
def excerpt (p : Position) : String :=
  if p.sourceLine = "" then
    ""
  else
    "\n    " ++ p.sourceLine ++ "\n    " ++ String.ofList (List.replicate (p.column - 1) ' ') ++ "^"

end Position

end Script
