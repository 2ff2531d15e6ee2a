import TinyLisp.Repl.Run
import TinyLisp.Script.Run

/-!
# The command line

`run` evaluates scripts and `repl` starts an interactive session.  This module only reads
files and the standard input and writes what the library answers.
-/

namespace TinyLisp.Main

/-- The reason for a failure of the system. -/
def fileError : IO.Error → FileError
  | .noFileOrDirectory _ _ _ => .notFound
  | .inappropriateType _ 20 _ => .notDirectory
  | .inappropriateType _ 21 _ => .isDirectory
  | .invalidArgument _ 36 _ => .nameTooLong
  | error => .other (toString error)

/-- The bytes of a file. -/
def readFile (path : String) : IO (Except FileError ByteArray) := do
  try
    return .ok (← IO.FS.readBinFile path)
  catch error =>
    return .error (fileError error)

/-- The texts of files, each read once. -/
def readFiles (paths : List String) : IO (String → Except String String) := do
  let files ← paths.mapM fun path => return (path, ← readFile path)
  return fun path =>
    match files.lookup path with
    | some contents => (contents >>= FileTree.textOf).mapError FileError.reason
    | none => .error FileError.notFound.reason

/-- The bytes of the standard input, up to the end. -/
partial def readInput (stream : IO.FS.Stream) (bytes : ByteArray) : IO ByteArray := do
  let more ← stream.read 65536
  if more.isEmpty then return bytes else readInput stream (bytes ++ more)

/-- The bytes of the next line of the standard input, in reverse. -/
partial def readLine (stream : IO.FS.Stream) (line : List UInt8) : IO (List UInt8) := do
  match (← stream.read 1).toList with
  | [] => return line
  | bytes =>
    let line := bytes ++ line
    if bytes = [10] then return line else readLine stream line

/-- The filter of the log, if the environment has one. -/
def logFilter : IO (Option Log.Filter) := do
  return (← IO.getEnv "RUST_LOG").map Log.Filter.ofText

/-- Writes what a console holds. -/
def flush (console : Console) : IO Console := do
  (← IO.getStdout).putStr console.output
  (← IO.getStdout).flush
  (← IO.getStderr).putStr console.errors
  return { console with output := "", errors := "" }

/-- Complains about a command line. -/
def misuse : IO UInt32 := do
  (← IO.getStderr).putStr "error: the command line makes no sense\n"
  return 2

/-- Shows the version. -/
def version : IO UInt32 := do
  (← IO.getStdout).putStr Arguments.versionText
  return 0

/-- What is left to do when an evaluation is too deep. -/
def tooDeep : IO UInt32 := do
  (← IO.getStderr).putStr "error: the evaluation is too deep\n"
  return 1

/-- Runs scripts. -/
def runScripts (words : List String) : IO UInt32 := do
  match Script.Options.ofWords words with
  | .misuse => misuse
  | .version => version
  | .run options =>
    let files ← readFiles options.files
    let input ←
      if options.files.isEmpty && options.expression.isNone then
        readInput (← IO.getStdin) .empty
      else pure .empty
    let sources := Script.sources options files ((FileTree.textOf input).mapError FileError.reason)
    match Script.run Session.ampleDepth .new (.new (← logFilter)) sources with
    | none => tooDeep
    | some (status, console) =>
      discard <| flush console
      return status.code.toUInt32

/-- Takes lines until the session is left or the input ends. -/
partial def converse (stream : IO.FS.Stream) (state : Repl.State) : IO (Option Repl.State) := do
  let state := { state with console := ← flush state.console }
  match ← readLine stream [] with
  | [] => return some state
  | line =>
    match Repl.feed Session.ampleDepth state (.ofBytes line.reverse) with
    | none => return none
    | some (.leave state) => return some state
    | some (.goOn state) => converse stream state

/-- Runs an interactive session. -/
def runRepl (words : List String) : IO UInt32 := do
  match Repl.Options.ofWords words with
  | .misuse => misuse
  | .version => version
  | .run options =>
    let files ← readFiles options.prelude
    let bytes ← match options.history? with
      | some path => readFile path
      | none => pure (.error .notFound)
    match Repl.start Session.ampleDepth options files (fun _ => Repl.History.ofFile bytes) (← logFilter) with
    | none => tooDeep
    | some state =>
      match ← converse (← IO.getStdin) state with
      | none => tooDeep
      | some state =>
        let state := Repl.finish state
        discard <| flush state.console
        match Repl.historyFile? options state with
        | none => return 0
        | some (path, text) =>
          try
            IO.FS.writeFile path text
          catch error =>
            let event := Log.Event.historyLost path (fileError error).reason
            discard <| flush ((Console.new (← logFilter)).note event)
          return 0

end TinyLisp.Main

/-- The program. -/
def main : List String → IO UInt32
  | "run" :: words => TinyLisp.Main.runScripts words
  | "repl" :: words => TinyLisp.Main.runRepl words
  | _ => TinyLisp.Main.misuse
