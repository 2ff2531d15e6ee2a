import TinyLisp.Report.Source
import TinyLisp.Span

/-!
# Labelled source diagrams

A diagram shows the lines of a source that a span covers, the location of its start, and
a label below it.  `Diagram.rows` gives it row by row.

The ends of the span are taken as offsets in characters.  A span that lies outside the
source has no diagram.
-/

namespace TinyLisp.Report

/-- What a diagram shows. -/
structure Diagram where
  /-- The name of the source. -/
  name : String
  lines : List Line
  span : Span
  label : String

namespace Diagram

/-- The text `piece` over and over. -/
def times (count : Nat) (piece : String) : String :=
  String.join (List.replicate count piece)

/-- The number of characters of the source. -/
def size (d : Diagram) : Nat :=
  (d.lines.getLast?.map Line.stop).getD 0

/-- The offset of the last character of the span, or of its start if it is empty. -/
def last (d : Diagram) : Nat :=
  if d.span.start < d.span.stop then d.span.stop - 1 else d.span.start

/-- Whether both ends of the span lie within the source. -/
def isInside (d : Diagram) : Bool :=
  d.span.start ≤ d.size && d.last ≤ d.size

/-- The row of the first line shown. -/
def firstRow (d : Diagram) : Nat := rowOf d.lines d.span.start

/-- The row of the last line shown. -/
def lastRow (d : Diagram) : Nat := rowOf d.lines d.last

/-- The width of the column of line numbers. -/
def numberWidth (d : Diagram) : Nat :=
  (toString (d.lastRow + 1)).length

/-- What stands in front of a row without a line number. -/
def margin (d : Diagram) : String :=
  times (d.numberWidth + 2) " "

/-- What stands in front of a row that shows a line. -/
def numbered (d : Diagram) (row : Nat) : String :=
  let number := toString (row + 1)
  " " ++ times (d.numberWidth - number.length) " " ++ number ++ " "

/-- The location of the start of the span, counted from one. -/
def location (d : Diagram) : String :=
  let place := placeOf d.lines d.span.start
  d.name ++ ":" ++ toString (place.row + 1) ++ ":" ++ toString (place.column + 1)

/-- Draws one cell of the given width: a sign, and a tail for each further column. -/
def draw (width : Nat) (sign tail : String) : String :=
  if width = 0 then "" else sign ++ times (width - 1) tail

/-- The underline of a span on one line, with a stem at the middle, and the arm that leads
from the stem to the label. -/
def arrow (d : Diagram) (line : Line) : String × String :=
  let middle := (d.span.start + d.span.stop) / 2 - line.offset
  let columns := List.range (d.span.stop - line.offset + 2)
  let underline := columns.map fun column =>
    let place := line.offset + column
    let underlined := d.span.start ≤ place && place < d.span.stop
    let width := line.widthAt column
    if column = middle then if underlined then draw width "┬" "─" else draw width "│" " "
    else if underlined then draw width "─" "─"
    else draw width " " " "
  let arm := columns.map fun column =>
    let width := line.widthAt column
    if column < middle then draw width " " " "
    else if column = middle then draw width "╰" "─"
    else draw width "─" "─"
  (String.join underline, String.join arm)

/-- The rows of a span on one line. -/
def singleLine (d : Diagram) (row : Nat) (line : Line) : List String :=
  if line.stop < d.span.stop then [d.margin ++ "│ "]
  else
    let (underline, arm) := d.arrow line
    [d.numbered row ++ "│ " ++ line.shown,
      d.margin ++ "│ " ++ underline,
      d.margin ++ "│ " ++ arm ++ " " ++ d.label]

/-- The columns of a line and of two more places after it. -/
def reach (line : Line) : Nat :=
  (List.range (line.length + 2)).foldl (fun columns index => columns + line.widthAt index) 0

/-- Whether the span ends on a line. -/
def endsOn (d : Diagram) (line : Line) : Bool :=
  line.offset ≤ d.last && d.last < line.stop

/-- The rows of the lines after the first one of a longer span.  A run of lines in between is
shown as one row; `skipping` tells that its row is already there. -/
def laterLines (d : Diagram) (skipping : Bool) : Nat → List Line → List String
  | _, [] => []
  | row, line :: rest =>
    if d.endsOn line then
      let width := reach line
      (d.numbered row ++ "│ ├─▶ " ++ line.shown) ::
        (d.margin ++ "│ │   " ++ times width " ") ::
        (d.margin ++ "│ ╰───" ++ times width "─" ++ " " ++ d.label) ::
        d.laterLines false (row + 1) rest
    else if skipping then d.laterLines true (row + 1) rest
    else (d.margin ++ "┆ ┆   ") :: d.laterLines true (row + 1) rest

/-- The rows that show the source. -/
def body (d : Diagram) : List String :=
  let first := d.firstRow
  match (d.lines.take (d.lastRow + 1)).drop first with
  | [] => []
  | [line] => d.singleLine first line
  | line :: rest =>
    (d.numbered first ++ "│ ╭─▶ " ++ line.shown) :: d.laterLines false (first + 1) rest

/-- The rows of a diagram.  There is none if the span lies outside the source. -/
def rows (d : Diagram) : List String :=
  if d.isInside then
    [d.margin ++ "╭─[ " ++ d.location ++ " ]", d.margin ++ "│"] ++ d.body
      ++ [times (d.numberWidth + 2) "─" ++ "╯"]
  else []

end Diagram

end TinyLisp.Report
