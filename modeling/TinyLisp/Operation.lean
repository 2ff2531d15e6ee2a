import TinyLisp.Fault
import TinyLisp.Number.Whole

/-!
# Applying builtins

`Builtin.operate` is what a builtin does with its arguments: every argument has to be a
number, and then there have to be as many as the operation takes.  `Builtin.call` looks
at the number of arguments first.  They differ only when both are wrong, and `begin`
takes arguments of any kind.
-/

namespace TinyLisp

namespace Builtin

/-- The arguments as numbers, unless one is none.  `position` is the place of the first. -/
def numbersFrom (builtin : Builtin) (position : Nat) : List Value → Except Fault (List Float)
  | [] => .ok []
  | argument :: rest =>
    match argument.number? with
    | none => .error (.typeMismatch builtin position argument.kind)
    | some x => (builtin.numbersFrom (position + 1) rest).map (x :: ·)

/-- The arguments as numbers, unless one is none. -/
def numbers (builtin : Builtin) (arguments : List Value) : Except Fault (List Float) :=
  builtin.numbersFrom 1 arguments

/-- The arguments as two numbers. -/
def twoNumbers (builtin : Builtin) (arguments : List Value) : Except Fault (Float × Float) :=
  match builtin.numbers arguments with
  | .error fault => .error fault
  | .ok [left, right] => .ok (left, right)
  | .ok others => .error (.arityMismatch (.builtin builtin) 2 others.length)

/-- One for true and zero for false. -/
def truth (holds : Bool) : Float :=
  if holds then 1 else 0

/-- What a builtin does with its arguments. -/
def operate (builtin : Builtin) (arguments : List Value) : Except Fault Value :=
  match builtin with
  | add => return .number ((← builtin.numbers arguments).foldl (· + ·) 0)
  | multiply => return .number ((← builtin.numbers arguments).foldl (· * ·) 1)
  | subtract => do
    let (left, right) ← builtin.twoNumbers arguments
    return .number (left - right)
  | divide => do
    let (left, right) ← builtin.twoNumbers arguments
    if right == 0 then throw (.divisionByZero builtin)
    return .number (left / right)
  | remainder => do
    let (left, right) ← builtin.twoNumbers arguments
    match Number.remainder? left right with
    | none => throw (.divisionByZero builtin)
    | some result => return .number result
  | less => do
    let (left, right) ← builtin.twoNumbers arguments
    return .number (truth (left < right))
  | equal => do
    let (left, right) ← builtin.twoNumbers arguments
    return .number (truth (left == right))
  | sequence => return arguments.getLast?.getD (.number 0)

/-- Applies a builtin to arguments, whose number is looked at first. -/
def call (builtin : Builtin) (arguments : List Value) : Except Fault Value :=
  match builtin.arity with
  | .variadic => builtin.operate arguments
  | .exactly expected =>
    if arguments.length = expected then builtin.operate arguments
    else .error (.arityMismatch (.builtin builtin) expected arguments.length)

end Builtin

end TinyLisp
