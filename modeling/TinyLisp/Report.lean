import TinyLisp.Report.Diagram
import TinyLisp.Session

/-!
# Error reports

What is printed when a source fails: a heading, and a diagram of the source with a label
at the fault.  A source that cannot be had is reported in one line.
-/

namespace TinyLisp

/-- The heading and the label of a report. -/
structure Caption where
  heading : String
  label : String

/-- The caption of a fault of evaluation. -/
def Fault.caption : Fault → Caption
  | unboundName name =>
    ⟨"Unknown name `" ++ name ++ "`", "This name is not bound in any enclosing scope"⟩
  | emptyApplication => ⟨"Empty list expression", "There is nothing to call here"⟩
  | malformed keyword complaint => ⟨"Malformed `" ++ keyword.word ++ "`", complaint.message⟩
  | notCallable found =>
    ⟨"Not callable: " ++ Number.render .plain found,
      "This expression cannot be called as a procedure"⟩
  | arityMismatch callee expected found =>
    ⟨"Wrong number of arguments for `" ++ callee.name ++ "`",
      "Expected " ++ toString expected ++ ", got " ++ toString found⟩
  | typeMismatch builtin position found =>
    ⟨"Type mismatch in `" ++ builtin.name ++ "`",
      "Argument " ++ toString position ++ " should be a number, found " ++ found.word⟩
  | divisionByZero builtin =>
    ⟨"Division by zero in `" ++ builtin.name ++ "`", "The divisor is zero"⟩

/-- The caption of a fault of reading. -/
def ReadError.caption : ReadError → Caption
  | endOfInput => ⟨"Unexpected end of input", "Expected an expression"⟩
  | strayClose _ => ⟨"Unexpected ')'", "This paren closes nothing"⟩
  | unclosed _ => ⟨"Unbalanced expression", "This paren is never closed"⟩

namespace Report

/-- A caption over the diagram of a span of a source. -/
def render (name text : String) (caption : Caption) (span : Span) : String :=
  let diagram : Diagram := ⟨name, lines text, span, caption.label⟩
  String.join ((("Error: " ++ caption.heading) :: diagram.rows).map (· ++ "\n"))

/-- The report of a reading error.  The end of the input is an empty span after the text. -/
def ofReadError (name text : String) (error : ReadError) : String :=
  let stop := text.utf8ByteSize
  render name text error.caption (error.span?.getD ⟨stop, stop⟩)

end Report

/-- The report of an error in the source `text` of the given name. -/
def SourceError.report (name text : String) : SourceError → String
  | read error => Report.ofReadError name text error
  | eval error => Report.render name text error.fault.caption error.span
  | unreadable path reason => "Error: " ++ (unreadable path reason).message ++ "\n"

end TinyLisp
