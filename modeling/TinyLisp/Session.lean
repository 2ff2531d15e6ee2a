import TinyLisp.Eval
import TinyLisp.Reader

/-!
# Sessions

A session evaluates source texts one after the other in one global frame.  The forms of
a text are evaluated in order.  The first fault, in the reading or the evaluation, ends
the text, and what the forms before it did stays done.
-/

namespace TinyLisp

/-- Why a source text fails. -/
inductive SourceError where
  | read (error : ReadError)
  | eval (error : EvalError)
  /-- The text itself cannot be had. -/
  | unreadable (path reason : String)

namespace SourceError

/-- The error in words. -/
def message : SourceError → String
  | read error => error.message
  | eval error => error.message
  | unreadable path reason => "failed to read " ++ path ++ ": " ++ reason

/-- The span at fault, if the error has one. -/
def span? : SourceError → Option Span
  | read error => error.span?
  | eval error => some error.span
  | unreadable _ _ => none

end SourceError

/-- What a source text gives: the value of its last form, nothing if it has no form, or
an error. -/
abbrev SourceResult := Except SourceError (Option Value)

/-- Evaluates forms in order.  The value is that of the last one, or `last` if there is
none. -/
def evalForms (depth : Nat) (frame : Nat) (last : Option Value) :
    List Node → Evaluation (Option Value)
  | [] => return last
  | form :: rest => do
    let value ← eval depth frame form
    evalForms depth frame (some value) rest

/-- Evaluates a source text in a frame of a store. -/
def evalSource (depth : Nat) (frame : Nat) (text : String) (store : Store) :
    Option (SourceResult × Store) :=
  let (forms, fault) := Reader.readAll (Token.tokenize text)
  match evalForms depth frame none forms store with
  | none => none
  | some (.error error, after) => some (.error (.eval error), after)
  | some (.ok value, after) =>
    match fault with
    | some error => some (.error (.read error), after)
    | none => some (.ok value, after)

/-- A store and the global frame in which source texts are evaluated. -/
structure Session where
  store : Store
  root : Nat

namespace Session

/-- More nested evaluations than a machine has room for. -/
def ampleDepth : Nat := 1000000000

/-- A session with a new global frame in a store of its own. -/
def new : Session :=
  ⟨Store.empty.addGlobal, Store.empty.nextFrame⟩

/-- Evaluates a source text. -/
def eval (depth : Nat) (session : Session) (text : String) : Option (SourceResult × Session) :=
  (evalSource depth session.root text session.store).map fun (result, store) =>
    (result, { session with store })

/-- Evaluates the text of a file, or fails with the reason why it cannot be had. -/
def load (depth : Nat) (session : Session) (path : String) (contents : Except String String) :
    Option (SourceResult × Session) :=
  match contents with
  | .ok text => session.eval depth text
  | .error reason => some (.error (.unreadable path reason), session)

/-- The names that a source text can refer to. -/
def names (session : Session) : List String :=
  session.store.visible session.root

/-- The value of a global name. -/
def get? (session : Session) (name : String) : Option Value :=
  session.store.get? session.root name

end Session

end TinyLisp
