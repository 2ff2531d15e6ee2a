import TinyLisp.Host.Arguments

/-!
# Options of the interactive session

An interactive session takes as operands the files to evaluate before the first entry.
`--history` names the file in which entries are kept, `--no-history` keeps none, and
`--vi` is about the keys of a terminal.
-/

namespace TinyLisp.Repl

open Arguments

/-- What an interactive session is asked to do. -/
structure Options where
  prelude : List String
  /-- The file named for the history. -/
  historyPath : Option String
  /-- Whether no history is kept. -/
  forgets : Bool
  /-- Whether the keys are those of vi. -/
  viKeys : Bool

/-- The file of the history, if one is kept. -/
def Options.history? (options : Options) : Option String :=
  if options.forgets then none else some (options.historyPath.getD "humble_history.txt")

/-- The options that a session knows. -/
inductive Flag where
  | history
  | noHistory
  | vi
  | version
  deriving DecidableEq

/-- How the options are written. -/
def switches : List (Switch Flag) :=
  [⟨.history, none, "history", true⟩, ⟨.noHistory, none, "no-history", false⟩,
    ⟨.vi, none, "vi", false⟩, ⟨.version, some 'V', "version", false⟩]

/-- Takes the arguments one after the other.  A file needs a name, and an option is given at
most once. -/
def Options.collect (options : Options) : List (Argument Flag) → Request Options
  | [] => .run options
  | .operand path :: rest =>
    if path = "" then .misuse
    else collect { options with prelude := options.prelude ++ [path] } rest
  | .setting .history path :: rest =>
    if path = "" || options.historyPath.isSome then .misuse
    else collect { options with historyPath := some path } rest
  | .switch .noHistory :: rest =>
    if options.forgets then .misuse else collect { options with forgets := true } rest
  | .switch .vi :: rest =>
    if options.viKeys then .misuse else collect { options with viKeys := true } rest
  | .switch .version :: _ => .version
  | _ => .misuse

/-- Reads a command line. -/
def Options.ofWords (words : List String) : Request Options :=
  Options.collect ⟨[], none, false, false⟩ (scan switches none words)

end TinyLisp.Repl
