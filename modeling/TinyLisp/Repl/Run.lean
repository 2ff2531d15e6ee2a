import TinyLisp.Host.Console
import TinyLisp.Repl.Entry
import TinyLisp.Repl.History
import TinyLisp.Repl.Options

/-!
# The interactive session

A session greets, evaluates its preludes and then every entry, until the input ends, an
entry is `exit` or a line is no text.  It prints the value of each entry, reports errors
and goes on after them, and keeps the entries in its history.

`Repl.start`, `Repl.feed` and `Repl.finish` are the stages of a session, and `Repl.run`
is a whole one.
-/

namespace TinyLisp.Repl

/-- The state of a session between two lines. -/
structure State where
  session : Session
  console : Console
  history : History
  /-- The lines of an entry that is not complete. -/
  buffer : String

/-- A line of input, as far as it is text. -/
inductive Input where
  | line (line : InputLine)
  | undecodable

/-! ## Input -/

/-- The input with these bytes, without the line ends. -/
def Input.ofBytes (bytes : List UInt8) : Input :=
  match String.fromUTF8? ⟨bytes.toArray⟩ with
  | some text => .line (.ofChars text.toList)
  | none => .undecodable

/-- The lines of the input, where `line` has the bytes already read of the first one, in
reverse. -/
def splitInput (line : List UInt8) : List UInt8 → List Input
  | [] => if line.isEmpty then [] else [.ofBytes line.reverse]
  | byte :: rest =>
    if byte = 10 then .ofBytes (byte :: line).reverse :: splitInput [] rest
    else splitInput (byte :: line) rest

/-! ## Stages -/

/-- What a session begins with. -/
def greeting : String := "Welcome to Humble lisp (hit CTRL-D to quit)\n"

/-- What a session ends with. -/
def farewell : String := "\nkthxbai ☺\n"

/-- What a line that is no text is answered with. -/
def undecodableMessage : String :=
  "Readline Error: Io(Error \x7b kind: InvalidData, message: "
    ++ Text.quoted FileError.notText.reason ++ " \x7d)\n"

/-- Evaluates a prelude.  Whatever is wrong with it is reported, and the session goes on. -/
def runPrelude (depth : Nat) (file : String → Except String String) (session : Session)
    (console : Console) (path : String) : Option (Session × Console) :=
  match file path with
  | .error reason =>
    some (session, console.complain (SourceError.report path "" (.unreadable path reason)))
  | .ok text =>
    (session.evalLogged depth text console).map fun (result, session, console) =>
      match result with
      | .ok _ => (session, console)
      | .error error => (session, console.complain (error.report path text))

/-- Evaluates preludes in order. -/
def runPreludes (depth : Nat) (file : String → Except String String) (session : Session)
    (console : Console) : List String → Option (Session × Console)
  | [] => some (session, console)
  | path :: rest =>
    match runPrelude depth file session console path with
    | none => none
    | some (session, console) => runPreludes depth file session console rest

/-- Begins a session, up to its first entry. -/
def start (depth : Nat) (options : Options) (file : String → Except String String)
    (history : String → History × Option FileError) (log : Option Log.Filter) : Option State :=
  (runPreludes depth file .new ((Console.new log).print greeting) options.prelude).map
    fun (session, console) =>
      match options.history? with
      | none => ⟨session, console, .empty, ""⟩
      | some path =>
        match history path with
        | (history, none) => ⟨session, console, history, ""⟩
        | (history, some error) =>
          ⟨session, console.note (.noHistory path error.reason), history, ""⟩

/-- Evaluates an entry. -/
def enter (depth : Nat) (state : State) (entry : String) : Option State :=
  (state.session.evalLogged depth entry state.console).map fun (result, session, console) =>
    let console :=
      match result with
      | .ok value => console.showValue value
      | .error error => console.complain (error.report "REPL" entry)
    { state with session, console }

/-- What a session does after a line. -/
inductive Next where
  | goOn (state : State)
  | leave (state : State)

/-- Takes a line of input. -/
def feed (depth : Nat) (state : State) : Input → Option Next
  | .undecodable =>
    some (.leave { state with console := state.console.complain undecodableMessage })
  | .line line =>
    match addLine state.buffer line with
    | .unfinished buffer => some (.goOn { state with buffer })
    | .rejected offset buffer =>
      some (.goOn { state with buffer, console := state.console.complain (rejection offset) })
    | .blank => some (.goOn { state with buffer := "" })
    | .entry text =>
      let state := { state with buffer := "", history := state.history.add text }
      if isExit text then some (.leave state) else (enter depth state text).map .goOn

/-- Takes lines of input until the session is left. -/
def feedAll (depth : Nat) (state : State) : List Input → Option State
  | [] => some state
  | input :: rest =>
    match feed depth state input with
    | none => none
    | some (.leave state) => some state
    | some (.goOn state) => feedAll depth state rest

/-- Says farewell. -/
def finish (state : State) : State :=
  { state with console := state.console.print farewell }

/-- The file in which the history is to be kept and its text, if there is something new in
it. -/
def historyFile? (options : Options) (state : State) : Option (String × String) :=
  match options.history? with
  | some path => if state.history.isNew then some (path, state.history.render) else none
  | none => none

/-- Keeps the history, if there is something new in it. -/
def keepHistory (options : Options) (state : State) (tree : FileTree) : Console × FileTree :=
  match historyFile? options state with
  | none => (state.console, tree)
  | some (path, text) =>
    match tree.write path text with
    | .ok tree => (state.console, tree)
    | .error error => (state.console.note (.historyLost path error.reason), tree)

/-- A whole session on the given files and input. -/
def run (depth : Nat) (options : Options) (log : Option Log.Filter) (tree : FileTree)
    (input : List UInt8) : Option (Console × FileTree) :=
  let file := fun path => (tree.readText path).mapError FileError.reason
  match start depth options file (fun path => History.ofFile (tree.read path)) log with
  | none => none
  | some state =>
    (feedAll depth state (splitInput [] input)).map fun state =>
      keepHistory options (finish state) tree

end TinyLisp.Repl
