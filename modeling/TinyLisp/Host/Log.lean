import TinyLisp.Reader

/-!
# The log

What a program does can be followed in a log, which a filter lets through in part.  A
filter is a level, which lets through every event of at least that weight, or a target
with a level, which lets through only the events whose target begins with it.
-/

namespace TinyLisp.Log

/-- The weight of an event, the heaviest first. -/
inductive Level where
  | error
  | warn
  | info
  | debug
  | trace
  deriving DecidableEq, Repr

namespace Level

/-- The place of a level, counted from one. -/
def rank : Level → Nat
  | error => 1
  | warn => 2
  | info => 3
  | debug => 4
  | trace => 5

/-- A level in a line of the log, five letters wide. -/
def tag : Level → String
  | error => "ERROR"
  | warn => " WARN"
  | info => " INFO"
  | debug => "DEBUG"
  | trace => "TRACE"

end Level

/-- Something that the log tells of. -/
inductive Event where
  /-- A file is about to be read. -/
  | loading (path : String)
  /-- A source text was evaluated without an error. -/
  | evaluated (bytes tokens forms : Nat)
  /-- The history of earlier sessions cannot be had. -/
  | noHistory (path reason : String)
  /-- The history of this session cannot be kept. -/
  | historyLost (path reason : String)

namespace Event

/-- The event of a text that was evaluated. -/
def ofText (text : String) : Event :=
  let tokens := Token.tokenize text
  .evaluated text.utf8ByteSize tokens.length (Reader.readAll tokens).1.length

/-- The weight of an event. -/
def level : Event → Level
  | loading _ => .info
  | _ => .debug

/-- The part of the program that an event comes from. -/
def target : Event → String
  | loading _ | evaluated _ _ _ => "humble::interpreter"
  | noHistory _ _ | historyLost _ _ => "repl"

/-- The activity during which an event happens, if it is named. -/
def activity : Event → String
  | evaluated bytes _ _ => "eval_source\x7blen=" ++ toString bytes ++ "\x7d: "
  | _ => ""

/-- What an event tells. -/
def text : Event → String
  | loading path => "loading file path=" ++ path
  | evaluated _ tokens forms =>
    "evaluated source tokens=" ++ toString tokens ++ " forms=" ++ toString forms
  | noHistory path reason => "no previous history error=" ++ reason ++ " path=" ++ path
  | historyLost path reason => "failed to save history error=" ++ reason ++ " path=" ++ path

/-- An event as a line of the log. -/
def line (event : Event) : String :=
  event.level.tag ++ " " ++ event.activity ++ event.target ++ ": " ++ event.text ++ "\n"

end Event

/-- What the log lets through: events whose target begins with `target` and whose level has
at most the rank `rank`. -/
structure Filter where
  target : String
  rank : Nat

namespace Filter

/-- The rank of a word for a level, in any case, or of its number. -/
def rank? (word : String) : Option Nat :=
  let word := String.ofList (word.toList.map Char.toLower)
  let words := ["off", "error", "warn", "info", "debug", "trace"]
  match words.findIdx? (· = word) with
  | some rank => some rank
  | none => (List.range words.length).find? fun rank => toString rank = word

/-- Reads a filter.  The empty text lets errors through, and a target alone every event. -/
def ofText (text : String) : Filter :=
  match rank? text with
  | some rank => ⟨"", rank⟩
  | none =>
    if text = "" then ⟨"", Level.error.rank⟩
    else
      match text.splitOn "=" with
      | [target, level] =>
        match rank? level with
        | some rank => ⟨target, rank⟩
        | none => ⟨"", Level.error.rank⟩
      | _ => ⟨text, Level.trace.rank⟩

/-- Whether a filter lets an event through. -/
def allows (filter : Filter) (event : Event) : Bool :=
  event.level.rank ≤ filter.rank && filter.target.toList.isPrefixOf event.target.toList

end Filter

end TinyLisp.Log
