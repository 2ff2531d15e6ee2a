import TinyLisp.Builtin
import TinyLisp.Node

/-!
# Values

What an expression evaluates to: a number, a builtin or a closure.  A closure has the
number of the frame that it was made in, which is the place of that frame in the store,
and an identity of its own: two closures are the same only if one evaluation of a
`lambda` form made both.
-/

namespace TinyLisp

/-- A procedure made by a `lambda` form. -/
structure Closure where
  /-- Tells this closure from every other one. -/
  identity : Nat
  parameters : List String
  body : Node
  /-- The number of the frame that encloses the body. -/
  frame : Nat

/-- What can be applied. -/
inductive Procedure where
  | builtin (builtin : Builtin)
  | closure (closure : Closure)

/-- The result of an evaluation. -/
inductive Value where
  | number (number : Float)
  | procedure (procedure : Procedure)

/-- The kinds of value that messages tell apart. -/
inductive ValueKind where
  | number
  | builtin
  | lambda
  deriving DecidableEq, Repr

/-- The word for a kind of value. -/
def ValueKind.word : ValueKind → String
  | number => "number"
  | builtin => "builtin"
  | lambda => "lambda"

namespace Closure

/-- A closure as text: the `lambda` form that makes one like it. -/
def render (closure : Closure) : String :=
  "(lambda (" ++ String.intercalate " " closure.parameters ++ ") " ++ closure.body.render ++ ")"

end Closure

namespace Procedure

/-- A procedure as text. -/
def render : Procedure → String
  | builtin b => "#<builtin:" ++ b.name ++ ">"
  | closure c => c.render

/-- The kind of a procedure. -/
def kind : Procedure → ValueKind
  | builtin _ => .builtin
  | closure _ => .lambda

/-- Builtins are the same by name, closures by identity. -/
def same : Procedure → Procedure → Bool
  | builtin a, builtin b => a.name = b.name
  | closure a, closure b => a.identity = b.identity
  | _, _ => false

end Procedure

namespace Value

/-- A value as text. -/
def render : Value → String
  | number x => Number.render .plain x
  | procedure p => p.render

/-- The kind of a value. -/
def kind : Value → ValueKind
  | number _ => .number
  | procedure p => p.kind

/-- Zero is false to `or` and `and`; every other value is true. -/
def isTruthy : Value → Bool
  | number x => x != 0
  | procedure _ => true

/-- The number that a value is, if it is one. -/
def number? : Value → Option Float
  | number x => some x
  | procedure _ => none

/-- Numbers are the same if they are equal floats, procedures as `Procedure.same` says. -/
def same : Value → Value → Bool
  | number x, number y => x == y
  | procedure p, procedure q => p.same q
  | _, _ => false

end Value

end TinyLisp
