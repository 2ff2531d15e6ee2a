import TinyLisp.Paren.Balance
import TinyLisp.Text.Blank

/-!
# Entries

An entry of an interactive session is one or more lines of input whose parens balance,
without the blanks around it; blank lines are no entry.  While a paren is open, the next
line is added after a line end.  A closing paren without a partner is never mended:
lines are added, but they never become an entry.

`addLine` says what one line makes of the lines before it, and `entries` which entries
a whole input has.
-/

namespace TinyLisp.Repl

/-- A line of input and the line end behind it, which is empty at the end of the input. -/
structure InputLine where
  text : String
  ending : String

namespace InputLine

/-- Takes the line end off a line. -/
def ofChars (chars : List Char) : InputLine :=
  match chars.reverse with
  | '\n' :: '\r' :: rest => ⟨String.ofList rest.reverse, "\r\n"⟩
  | '\n' :: rest => ⟨String.ofList rest.reverse, "\n"⟩
  | _ => ⟨String.ofList chars, ""⟩

end InputLine

/-- What a line makes of the lines before it. -/
inductive Reading where
  /-- An entry is complete.  It is trimmed and not empty. -/
  | entry (text : String)
  /-- There is nothing but blanks. -/
  | blank
  /-- The entry goes on with the next line. -/
  | unfinished (buffer : String)
  /-- There is a stray paren at this byte offset of the buffer. -/
  | rejected (offset : Nat) (buffer : String)

/-- Adds a line to the lines that wait in the buffer. -/
def addLine (buffer : String) (line : InputLine) : Reading :=
  let text := buffer ++ line.text
  match Balance.ofText text with
  | .balanced =>
    let entry := Text.trim text
    if entry.isEmpty then .blank else .entry entry
  | .unclosed => .unfinished (text ++ line.ending)
  | .stray offset => .rejected offset text

/-- What a rejected line is answered with. -/
def rejection (offset : Nat) : String :=
  "  - Unexpected ')' at position " ++ toString offset

/-- Whether an entry ends the session: the word `exit`, in any case. -/
def isExit (entry : String) : Bool :=
  entry.toList.map Char.toLower = "exit".toList

/-- The entries that lines of input give, from a buffer on, up to and without the first that
ends the session. -/
def entries (buffer : String) : List InputLine → List String
  | [] => []
  | line :: rest =>
    match addLine buffer line with
    | .blank => entries "" rest
    | .unfinished buffer => entries buffer rest
    | .rejected _ buffer => entries buffer rest
    | .entry text => if isExit text then [] else text :: entries "" rest

end TinyLisp.Repl
