import TinyLisp.Text.Blank
import TinyLisp.Text.Width

/-!
# Source lines

A report shows lines of the source text.  A line ends with its terminator, and no line
follows the terminator at the end of a text; an empty text is one empty line.  Places in
a text are counted in characters here.

On the page a line is a row of cells, one for each character up to its last visible one:
a tab fills up to the next multiple of four columns, any other blank is a space, and
every other character takes its own width.
-/

namespace TinyLisp.Report

/-- A line of a text, its terminator included, and the number of characters before it. -/
structure Line where
  offset : Nat
  chars : List Char
  deriving Inhabited

/-- A character that ends a line by itself. -/
def isTerminator (c : Char) : Bool :=
  c = '\n' || c = '\r' || c = '\x0b' || c = '\x0c' || c = '\u0085' || c = '\u2028' || c = '\u2029'

/-- The lines of a text from the offset of the current one on, of which `current` is already
read, in reverse. -/
def splitLines (offset : Nat) (current : List Char) : List Char → List Line
  | [] => if current.isEmpty then [] else [⟨offset, current.reverse⟩]
  | '\r' :: '\n' :: rest =>
    ⟨offset, ('\n' :: '\r' :: current).reverse⟩ :: splitLines (offset + current.length + 2) [] rest
  | c :: rest =>
    if isTerminator c then
      ⟨offset, (c :: current).reverse⟩ :: splitLines (offset + current.length + 1) [] rest
    else splitLines offset (c :: current) rest

/-- The lines of a text. -/
def lines (text : String) : List Line :=
  match splitLines 0 [] text.toList with
  | [] => [⟨0, []⟩]
  | lines => lines

/-- A place in a text: a line by its index, and the characters in front of it on the line. -/
structure Place where
  row : Nat
  column : Nat
  deriving DecidableEq, Repr

/-- The index of the last line that begins at or before `offset`. -/
def rowOf (lines : List Line) (offset : Nat) : Nat :=
  (lines.takeWhile fun line => line.offset ≤ offset).length - 1

/-- The place of the character at `offset`. -/
def placeOf (lines : List Line) (offset : Nat) : Place :=
  let row := rowOf lines offset
  ⟨row, offset - (lines[row]?.map Line.offset).getD 0⟩

/-- A character as it is shown, and the columns that it takes. -/
structure Cell where
  shown : String
  width : Nat

/-- How the character `c` is shown after `column` others. -/
def Cell.ofChar (column : Nat) (c : Char) : Cell :=
  if c = '\t' then
    let width := 4 - column % 4
    ⟨String.ofList (List.replicate width ' '), width⟩
  else if Text.isBlank c then ⟨" ", 1⟩
  else ⟨c.toString, Text.width c⟩

namespace Line

/-- The number of characters of a line. -/
def length (line : Line) : Nat :=
  line.chars.length

/-- The offset just after a line. -/
def stop (line : Line) : Nat :=
  line.offset + line.length

/-- The cells of a line, up to the last visible character. -/
def cells (line : Line) : List Cell :=
  (Text.trimEnd line.chars).mapIdx Cell.ofChar

/-- A line as it is shown. -/
def shown (line : Line) : String :=
  String.join (line.cells.map Cell.shown)

/-- The columns that the character at an index takes.  Past the last visible character it is
one. -/
def widthAt (line : Line) (index : Nat) : Nat :=
  (line.cells[index]?.map Cell.width).getD 1

end Line

end TinyLisp.Report
