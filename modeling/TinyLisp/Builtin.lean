/-!
# Builtins

The eight procedures that every global frame binds, with their names and the number of
arguments that they take.
-/

namespace TinyLisp

/-- How many arguments a builtin takes. -/
inductive Arity where
  | variadic
  | exactly (count : Nat)
  deriving DecidableEq, Repr

/-- A procedure that is part of the language. -/
inductive Builtin where
  | add
  | multiply
  | subtract
  | divide
  | remainder
  | less
  | equal
  /-- Gives its last argument. -/
  | sequence
  deriving DecidableEq, Repr

namespace Builtin

/-- Every builtin. -/
def all : List Builtin :=
  [add, multiply, subtract, divide, remainder, less, equal, sequence]

/-- The name under which a global frame binds a builtin. -/
def name : Builtin → String
  | add => "+"
  | multiply => "*"
  | subtract => "-"
  | divide => "/"
  | remainder => "%"
  | less => "<"
  | equal => "eq?"
  | sequence => "begin"

/-- How many arguments a builtin takes. -/
def arity : Builtin → Arity
  | add | multiply | sequence => .variadic
  | subtract | divide | remainder | less | equal => .exactly 2

/-- The builtin of a name, if there is one. -/
def ofName? (name : String) : Option Builtin :=
  all.find? fun builtin => builtin.name = name

theorem mem_all (builtin : Builtin) : builtin ∈ all := by
  cases builtin <;> decide

theorem ofName?_name (builtin : Builtin) : ofName? builtin.name = some builtin := by
  cases builtin <;> decide

/-- Two builtins of one name are the same. -/
theorem name_inj {a b : Builtin} : a.name = b.name ↔ a = b := by
  constructor
  · intro h
    simpa [ofName?_name] using congrArg ofName? h
  · exact congrArg name

end Builtin

end TinyLisp
