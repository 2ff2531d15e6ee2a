import TinyLisp.Keyword
import TinyLisp.Token

/-!
# Completion

The atom that ends at the cursor is completed to the names and keywords that begin with
it.  A candidate is the part of a name that is missing.
-/

namespace TinyLisp.Completion

/-- The atom that ends at the byte offset `cursor` of a line. -/
def stem? (line : String) (cursor : Nat) : Option String :=
  let before := String.ofList (Text.takeBytes cursor line.toList)
  match (Token.tokenize before).getLast? with
  | some ⟨.atom text, span⟩ => if span.stop = cursor then some text else none
  | _ => none

/-- What is missing from `stem` to `name`, unless nothing is or they differ. -/
def missing? (stem name : String) : Option String :=
  match stem.toList.isPrefixOf? name.toList with
  | some [] => none
  | some rest => some (String.ofList rest)
  | none => none

/-- The candidates for the atom that ends at the cursor, in order.  `names` are the names
in scope. -/
def candidates (names : List String) (line : String) (cursor : Nat) : List String :=
  match stem? line cursor with
  | none => []
  | some stem => (Text.nameSet (names ++ Keyword.words)).filterMap (missing? stem)

/-- Completes the atom that ends at the cursor: where the candidates are put in, and the
candidates. -/
def complete (names : List String) (line : String) (cursor : Nat) : Nat × List String :=
  (cursor, candidates names line cursor)

end TinyLisp.Completion
