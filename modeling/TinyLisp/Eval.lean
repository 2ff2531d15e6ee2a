import TinyLisp.Evaluation
import TinyLisp.Operation

/-!
# The evaluator

`eval` evaluates a node in a frame.  An evaluation need not come to an end, so the
evaluator is given a depth: how many evaluations may be nested in each other.  It gives
no answer only if that depth does not suffice.

Each rule of the language is a definition of its own.  It takes as `recur` the
evaluator with which it evaluates the parts of a node; `Eval.step` puts the rules
together, and `eval` closes the circle.
-/

namespace TinyLisp

namespace Eval

open Evaluation

/-! ## Shapes -/

/-- The name, its span and the value of `(define name value)` and `(set! name value)`. -/
def binding : List Node → Except Complaint (String × Span × Node)
  | [.symbol name span, value] => .ok (name, span, value)
  | [_, _] => .error .badName
  | _ => .error .wantsNameAndValue

/-- The names of a parameter list.  A parameter that is no symbol is at fault itself. -/
def parameters : List Node → Except (Complaint × Span) (List String)
  | [] => .ok []
  | .symbol name _ :: rest => (parameters rest).map (name :: ·)
  | node :: _ => .error (.badParameter node.render, node.span)

/-! ## Names and frames -/

/-- The value of a symbol. -/
def symbolValue (frame : Nat) (name : String) (span : Span) : Evaluation Value := do
  match (← get).lookup? frame name with
  | some value => return value
  | none => fail (.unboundName name) span

theorem symbolValue_apply (frame : Nat) (name : String) (span : Span) (store : Store) :
    symbolValue frame name span store =
      some (match store.lookup? frame name with
        | some value => .ok value
        | none => .error ⟨.unboundName name, span⟩, store) := by
  rw [symbolValue, bind_apply, get_apply]
  cases hlookup : store.lookup? frame name <;> simp only [hlookup] <;> rfl

/-- Makes a closure over a frame. -/
def makeClosure (frame : Nat) (parameters : List String) (body : Node) : Evaluation Value :=
  modifyGet fun store =>
    (.procedure (.closure ⟨store.closures, parameters, body, frame⟩),
      { store with closures := store.closures + 1 })

/-- Makes a frame for the call of a closure, in which each parameter is bound. -/
def enterFrame (outer : Nat) (pairs : List (String × Value)) : Evaluation Nat :=
  modifyGet fun store => (store.nextFrame, store.push ⟨some outer, Bindings.ofPairs pairs⟩)

/-! ## Rules -/

section Rules

variable (recur : Nat → Node → Evaluation Value)

/-- Evaluates nodes from left to right, up to the first that fails. -/
def each (frame : Nat) : List Node → Evaluation (List Value)
  | [] => return []
  | node :: rest => do
    let value ← recur frame node
    let values ← each frame rest
    return value :: values

/-- `(define name value)` binds the name in the frame of the form. -/
def define (frame : Nat) (operands : List Node) (span : Span) : Evaluation Value := do
  match binding operands with
  | .error complaint => fail (.malformed .define complaint) span
  | .ok (name, _, node) =>
    let value ← recur frame node
    modify fun store => store.set frame name value
    return value

/-- `(set! name value)` binds the name in the frame that bound it before the value was
evaluated. -/
def assign (frame : Nat) (operands : List Node) (span : Span) : Evaluation Value := do
  match binding operands with
  | .error complaint => fail (.malformed .set complaint) span
  | .ok (name, nameSpan, node) =>
    match (← get).find? frame name with
    | none => fail (.unboundName name) nameSpan
    | some owner =>
      let value ← recur frame node
      modify fun store => store.set owner name value
      return value

/-- `(if condition consequent alternate)` takes the consequent only for the number one. -/
def choose (frame : Nat) (operands : List Node) (span : Span) : Evaluation Value := do
  match operands with
  | [condition, consequent, alternate] =>
    match ← recur frame condition with
    | .number x => if x == 1 then recur frame consequent else recur frame alternate
    | .procedure _ => recur frame alternate
  | _ => fail (.malformed .if .wantsThreeParts) span

/-- `(or …)` is the first operand that is true, and zero if none is. -/
def firstTrue (frame : Nat) : List Node → Evaluation Value
  | [] => return .number 0
  | node :: rest => do
    let value ← recur frame node
    if value.isTruthy then return value else firstTrue frame rest

/-- `(and …)` is the first operand that is not true, and the last one, at first `last`, if
all are. -/
def allTrue (frame : Nat) (last : Value) : List Node → Evaluation Value
  | [] => return last
  | node :: rest => do
    let value ← recur frame node
    if value.isTruthy then allTrue frame value rest else return value

/-- `(lambda (parameter …) body)` makes a closure over the frame of the form. -/
def lambda (frame : Nat) (operands : List Node) (span : Span) : Evaluation Value := do
  match operands with
  | [.list nodes _, body] =>
    match parameters nodes with
    | .error (complaint, span) => fail (.malformed .lambda complaint) span
    | .ok names => makeClosure frame names body
  | _ => fail (.malformed .lambda .wantsParametersAndBody) span

/-- Evaluates a list with a keyword at its head. -/
def specialForm (keyword : Keyword) (frame : Nat) (operands : List Node) (span : Span) :
    Evaluation Value :=
  match keyword with
  | .define => define recur frame operands span
  | .set => assign recur frame operands span
  | .if => choose recur frame operands span
  | .or => firstTrue recur frame operands
  | .and => allTrue recur frame (.number 1) operands
  | .lambda => lambda frame operands span

/-- Calls a closure: its body is evaluated in a new frame, enclosed by the frame that the
closure was made in. -/
def callClosure (closure : Closure) (arguments : List Value) (span : Span) :
    Evaluation Value := do
  if arguments.length = closure.parameters.length then
    let frame ← enterFrame closure.frame (closure.parameters.zip arguments)
    recur frame closure.body
  else
    fail (.arityMismatch .lambda closure.parameters.length arguments.length) span

/-- Applies a procedure to arguments.  `span` is that of the whole application. -/
def apply (procedure : Procedure) (arguments : List Value) (span : Span) : Evaluation Value :=
  match procedure with
  | .builtin builtin => ofExcept span (builtin.call arguments)
  | .closure closure => callClosure recur closure arguments span

/-- Evaluates an application: the head, which has to be a procedure, then the operands, then
the call. -/
def application (frame : Nat) (head : Node) (operands : List Node) (span : Span) :
    Evaluation Value := do
  match ← recur frame head with
  | .number x => fail (.notCallable x) head.span
  | .procedure procedure =>
    let arguments ← each recur frame operands
    apply recur procedure arguments span

/-- The keyword that a node is, if it is one. -/
def keyword? : Node → Option Keyword
  | .symbol name _ => Keyword.ofName? name
  | _ => none

/-- Evaluates a node, and its parts with `recur`. -/
def step (frame : Nat) : Node → Evaluation Value
  | .number value _ => return .number value
  | .symbol name span => symbolValue frame name span
  | .list [] span => fail .emptyApplication span
  | .list (head :: operands) span =>
    match keyword? head with
    | some keyword => specialForm recur keyword frame operands span
    | none => application recur frame head operands span

end Rules

end Eval

/-- Evaluates a node in a frame, with at most `depth` evaluations nested in each other. -/
def eval : Nat → Nat → Node → Evaluation Value
  | 0 => fun _ _ => Evaluation.outOfDepth
  | depth + 1 => Eval.step (eval depth)

/-- Applies a procedure, with at most `depth` evaluations nested in each other. -/
def apply (depth : Nat) (procedure : Procedure) (arguments : List Value) (span : Span) :
    Evaluation Value :=
  Eval.apply (eval depth) procedure arguments span

end TinyLisp
