import TinyLisp.Host.Arguments

/-!
# Options of the script runner

The runner takes the files to load as operands, an expression to evaluate after them
(`-e`, `--eval`) and the wish to see the value of every file (`-p`, `--print`).
-/

namespace TinyLisp.Script

open Arguments

/-- What the script runner is asked to run. -/
structure Options where
  files : List String
  expression : Option String
  print : Bool

/-- The options that the runner knows. -/
inductive Flag where
  | eval
  | print
  | version
  deriving DecidableEq

/-- How the options are written. -/
def switches : List (Switch Flag) :=
  [⟨.eval, some 'e', "eval", true⟩, ⟨.print, some 'p', "print", false⟩,
    ⟨.version, some 'V', "version", false⟩]

/-- Takes the arguments one after the other.  A file needs a name, and an option is given at
most once. -/
def Options.collect (options : Options) : List (Argument Flag) → Request Options
  | [] => .run options
  | .operand path :: rest =>
    if path = "" then .misuse else collect { options with files := options.files ++ [path] } rest
  | .setting .eval text :: rest =>
    if options.expression.isSome then .misuse
    else collect { options with expression := some text } rest
  | .switch .print :: rest =>
    if options.print then .misuse else collect { options with print := true } rest
  | .switch .version :: _ => .version
  | _ => .misuse

/-- Reads a command line. -/
def Options.ofWords (words : List String) : Request Options :=
  Options.collect ⟨[], none, false⟩ (scan switches none words)

end TinyLisp.Script
