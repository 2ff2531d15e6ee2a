/-!
# Command-line arguments

A program describes its options; `Arguments.scan` then splits a list of words into what
they mean, from left to right:

* `--` makes every word after it an operand;
* `--name` and `--name=value` are long options;
* `-abc` is a group of short options.  The first of them that wants a value takes what
  follows it in the word, without a leading `=`;
* an option that wants a value and has none takes the next word, which must not begin
  with a dash unless it is `-` itself;
* every other word is an operand.
-/

namespace TinyLisp.Arguments

/-- An option that a program knows. -/
structure Switch (ι : Type) where
  id : ι
  short : Option Char
  long : String
  /-- Whether the option wants a value. -/
  wantsValue : Bool

/-- What a word or two of the command line mean. -/
inductive Argument (ι : Type) where
  /-- An option without a value. -/
  | switch (id : ι)
  /-- An option with its value. -/
  | setting (id : ι) (value : String)
  | operand (text : String)
  /-- A word that makes no sense. -/
  | bad

variable {ι : Type}

/-- What follows the dashes of a long option. -/
def longOption (switches : List (Switch ι)) (body : List Char) : List (Argument ι) × Option ι :=
  let name := String.ofList (body.takeWhile (· ≠ '='))
  match switches.find? fun switch => switch.long = name with
  | none => ([.bad], none)
  | some switch =>
    match body.dropWhile (· ≠ '='), switch.wantsValue with
    | [], true => ([], some switch.id)
    | [], false => ([.switch switch.id], none)
    | _ :: value, true => ([.setting switch.id (String.ofList value)], none)
    | _ :: _, false => ([.bad], none)

/-- What follows the dash of a group of short options. -/
def shortOptions (switches : List (Switch ι)) : List Char → List (Argument ι) × Option ι
  | [] => ([], none)
  | letter :: rest =>
    match switches.find? fun switch => switch.short = some letter with
    | none => ([.bad], none)
    | some switch =>
      if switch.wantsValue then
        match rest with
        | [] => ([], some switch.id)
        | '=' :: value => ([.setting switch.id (String.ofList value)], none)
        | value => ([.setting switch.id (String.ofList value)], none)
      else
        let (arguments, waiting) := shortOptions switches rest
        (.switch switch.id :: arguments, waiting)

/-- Whether a word can be the value of an option before it. -/
def canBeValue (word : String) : Bool :=
  word = "-" || word.toList.head? ≠ some '-'

/-- What one word means: its arguments, and an option at its end that still wants a value. -/
def word (switches : List (Switch ι)) (text : String) : List (Argument ι) × Option ι :=
  match text.toList with
  | '-' :: '-' :: body => longOption switches body
  | '-' :: letter :: rest => shortOptions switches (letter :: rest)
  | _ => ([.operand text], none)

/-- What the words mean, where `waiting` is an option that still wants a value. -/
def scan (switches : List (Switch ι)) (waiting : Option ι) : List String → List (Argument ι)
  | [] => if waiting.isSome then [.bad] else []
  | text :: rest =>
    match waiting with
    | some id => if canBeValue text then .setting id text :: scan switches none rest else [.bad]
    | none =>
      if text = "--" then rest.map .operand
      else
        let (arguments, waiting) := word switches text
        arguments ++ scan switches waiting rest

/-- What a command line asks for. -/
inductive Request (ο : Type) where
  /-- To show the version and do nothing else. -/
  | version
  /-- Nothing that makes sense. -/
  | misuse
  /-- To run with these options. -/
  | run (options : ο)

/-- What `--version` prints. -/
def versionText : String :=
  "humble 0.1.0\n"

end TinyLisp.Arguments
