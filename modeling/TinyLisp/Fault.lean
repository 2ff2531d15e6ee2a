import TinyLisp.Keyword
import TinyLisp.Text.Quoted
import TinyLisp.Value

/-!
# Faults of evaluation

A `Fault` says what went wrong, and an `EvalError` adds the span of the node at fault.
The wording of every fault is in `Fault.message`.
-/

namespace TinyLisp

/-- What is wrong with the shape of a special form. -/
inductive Complaint where
  /-- What is to be bound is no symbol. -/
  | badName
  | wantsNameAndValue
  | wantsThreeParts
  | wantsParametersAndBody
  /-- A parameter, shown as text, is no symbol. -/
  | badParameter (shown : String)
  deriving DecidableEq, Repr

/-- A complaint in words. -/
def Complaint.message : Complaint → String
  | badName => "bad name"
  | wantsNameAndValue => "expects a name and a value"
  | wantsThreeParts => "expects condition, consequent, and alternate"
  | wantsParametersAndBody => "expects a parameter list and a body"
  | badParameter shown => "parameter " ++ shown ++ " is not a symbol"

/-- What a call with the wrong number of arguments was made to. -/
inductive Callee where
  | builtin (builtin : Builtin)
  | lambda
  deriving DecidableEq, Repr

/-- The name of a callee in messages. -/
def Callee.name : Callee → String
  | builtin b => b.name
  | lambda => "lambda"

/-- Why an evaluation fails. -/
inductive Fault where
  /-- No frame in scope binds the name. -/
  | unboundName (name : String)
  /-- The empty list is evaluated. -/
  | emptyApplication
  /-- The operands of a special form have the wrong shape. -/
  | malformed (keyword : Keyword) (complaint : Complaint)
  /-- A number stands where a procedure is applied. -/
  | notCallable (found : Float)
  /-- A procedure is applied to the wrong number of arguments. -/
  | arityMismatch (callee : Callee) (expected found : Nat)
  /-- The argument at a position, counted from one, is no number. -/
  | typeMismatch (builtin : Builtin) (position : Nat) (found : ValueKind)
  | divisionByZero (builtin : Builtin)

/-- A fault and the span of the node at fault. -/
structure EvalError where
  fault : Fault
  span : Span

/-- A fault in words. -/
def Fault.message : Fault → String
  | unboundName name => "unknown name - " ++ Text.quoted name
  | emptyApplication => "empty list expression"
  | malformed keyword complaint => "malformed '" ++ keyword.word ++ "' - " ++ complaint.message
  | notCallable found => Number.render .plain found ++ " is not callable"
  | arityMismatch callee expected found =>
    callee.name ++ " - wrong number of arguments (want " ++ toString expected ++ ", got "
      ++ toString found ++ ")"
  | typeMismatch builtin position found =>
    builtin.name ++ " - argument " ++ toString position ++ ": expected a number, got " ++ found.word
  | divisionByZero builtin => builtin.name ++ " - division by zero"

/-- An evaluation error in words. -/
def EvalError.message (error : EvalError) : String :=
  error.fault.message

end TinyLisp
