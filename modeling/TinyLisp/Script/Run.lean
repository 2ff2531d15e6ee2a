import TinyLisp.Host.Console
import TinyLisp.Script.Options

/-!
# Running scripts

The runner evaluates its sources in one session, in order: the files, then the
expression, or the standard input if there is neither.  It stops at the first that
fails.

`Script.sources` lists the sources, and `Script.run` evaluates a list of sources.
-/

namespace TinyLisp.Script

/-- Where a source comes from. -/
inductive Origin where
  | file (path : String)
  | expression
  | input

/-- The name of a source in reports. -/
def Origin.name : Origin → String
  | file path => path
  | expression => "eval"
  | input => "stdin"

/-- A source: its text, or the reason why it cannot be had. -/
structure Source where
  origin : Origin
  contents : Except String String
  /-- Whether the value of the source is printed. -/
  shows : Bool

/-- The sources that the options ask for.  `file` gives the contents of a file and `input`
those of the standard input. -/
def sources (options : Options) (file : String → Except String String)
    (input : Except String String) : List Source :=
  let files := options.files.map fun path => ⟨.file path, file path, options.print⟩
  match options.expression with
  | some text => files ++ [⟨.expression, .ok text, true⟩]
  | none => if files.isEmpty then [⟨.input, input, true⟩] else files

/-- How a run ends. -/
inductive Status where
  | success
  | failure
  deriving DecidableEq, Repr

/-- The exit code of a status. -/
def Status.code : Status → Nat
  | success => 0
  | failure => 1

/-- Notes that a file is about to be read. -/
def announce (origin : Origin) (console : Console) : Console :=
  match origin with
  | .file path => console.note (.loading path)
  | _ => console

/-- Evaluates one source.  The status tells whether the run goes on. -/
def runSource (depth : Nat) (session : Session) (console : Console) (source : Source) :
    Option (Status × Session × Console) :=
  let console := announce source.origin console
  let name := source.origin.name
  match source.contents with
  | .error reason =>
    let error := SourceError.unreadable name reason
    some (.failure, session, console.complain (error.report name ""))
  | .ok text =>
    (session.evalLogged depth text console).map fun (result, session, console) =>
      match result with
      | .ok value => (.success, session, if source.shows then console.showValue value else console)
      | .error error => (.failure, session, console.complain (error.report name text))

/-- Evaluates sources in order, up to the first that fails. -/
def run (depth : Nat) (session : Session) (console : Console) :
    List Source → Option (Status × Console)
  | [] => some (.success, console)
  | source :: rest =>
    match runSource depth session console source with
    | none => none
    | some (.failure, _, console) => some (.failure, console)
    | some (.success, session, console) => run depth session console rest

end TinyLisp.Script
