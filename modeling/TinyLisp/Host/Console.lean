import TinyLisp.Host.Log
import TinyLisp.Report

/-!
# The console

The two streams that a program writes to: results go to the output, reports and the log
to the error stream.
-/

namespace TinyLisp

/-- What was written so far, and the filter of the log, if there is a log. -/
structure Console where
  log : Option Log.Filter
  output : String
  errors : String

namespace Console

/-- A console to which nothing was written. -/
def new (log : Option Log.Filter) : Console :=
  ⟨log, "", ""⟩

/-- Writes to the output. -/
def print (console : Console) (text : String) : Console :=
  { console with output := console.output ++ text }

/-- Writes to the error stream. -/
def complain (console : Console) (text : String) : Console :=
  { console with errors := console.errors ++ text }

/-- Writes an event to the error stream, if the log lets it through. -/
def note (console : Console) (event : Log.Event) : Console :=
  match console.log with
  | some filter => if filter.allows event then console.complain event.line else console
  | none => console

/-- Writes a value, if there is one, on a line of the output. -/
def showValue (console : Console) : Option Value → Console
  | some value => console.print (value.render ++ "\n")
  | none => console

@[simp] theorem output_note (console : Console) (event : Log.Event) :
    (console.note event).output = console.output := by
  unfold note
  split
  · split <;> rfl
  · rfl

@[simp] theorem log_note (console : Console) (event : Log.Event) :
    (console.note event).log = console.log := by
  unfold note
  split
  · split <;> rfl
  · rfl

/-- Without a log no event is noted. -/
theorem note_of_log_eq_none {console : Console} (h : console.log = none) (event : Log.Event) :
    console.note event = console := by
  rw [note, h]

end Console

namespace Session

/-- Evaluates a text, and notes that it was evaluated if there was no error. -/
def evalLogged (depth : Nat) (session : Session) (text : String) (console : Console) :
    Option (SourceResult × Session × Console) :=
  (session.eval depth text).map fun (result, session) =>
    match result with
    | .ok value => (.ok value, session, console.note (.ofText text))
    | .error error => (.error error, session, console)

end Session

end TinyLisp
