import TinyLisp.Node
import TinyLisp.Number.Numeral

/-!
# Reading

The reader turns tokens into nodes.  It keeps the lists that are open, the innermost
first, each with the children read so far.

* `Reader.read` reads one expression and gives the tokens after it.
* `Reader.next?` reads the next one of several, and after a fault no more.
* `Reader.readAll` reads every expression in front of the first fault.
* `Reader.parse` does so for a whole text.

Reading fails at a `)` that closes nothing, and at the end of the tokens when a `(` is
still open.
-/

namespace TinyLisp

/-- Why an expression cannot be read. -/
inductive ReadError where
  /-- There is no token left. -/
  | endOfInput
  /-- The `)` at this span closes nothing. -/
  | strayClose (span : Span)
  /-- The `(` at this span, the innermost one open at the end, is never closed. -/
  | unclosed (span : Span)
  deriving DecidableEq, Repr

namespace ReadError

/-- Where the paren at fault stands. -/
def span? : ReadError → Option Span
  | endOfInput => none
  | strayClose span => some span
  | unclosed span => some span

/-- The error in words. -/
def message : ReadError → String
  | endOfInput => "unexpected end of input"
  | strayClose _ => "unexpected ')'"
  | unclosed _ => "unbalanced expression"

end ReadError

namespace Reader

/-- An atom is a number if it is a numeral, and a symbol otherwise. -/
def atom (text : String) (span : Span) : Node :=
  match Number.parse? text with
  | some value => .number value span
  | none => .symbol text span

/-- A list whose `(` has been read, with its children in reverse. -/
structure OpenList where
  paren : Span
  children : List Node

/-- The list that the `)` at `close` completes. -/
def OpenList.close (list : OpenList) (close : Span) : Node :=
  .list list.children.reverse (list.paren.merge close)

/-- The list with one more child. -/
def OpenList.add (list : OpenList) (child : Node) : OpenList :=
  { list with children := child :: list.children }

/-- Reads on until the outermost of the open lists is complete, or one expression if no
list is open. -/
def readWithin : List OpenList → List Token → Except ReadError (Node × List Token)
  | [], [] => .error .endOfInput
  | list :: _, [] => .error (.unclosed list.paren)
  | lists, ⟨.opening, span⟩ :: rest => readWithin (⟨span, []⟩ :: lists) rest
  | [], ⟨.closing, span⟩ :: _ => .error (.strayClose span)
  | [list], ⟨.closing, span⟩ :: rest => .ok (list.close span, rest)
  | list :: outer :: lists, ⟨.closing, span⟩ :: rest =>
    readWithin (outer.add (list.close span) :: lists) rest
  | [], ⟨.atom text, span⟩ :: rest => .ok (atom text span, rest)
  | list :: lists, ⟨.atom text, span⟩ :: rest =>
    readWithin (list.add (atom text span) :: lists) rest

/-- Reads one expression from the front of the tokens. -/
def read (tokens : List Token) : Except ReadError (Node × List Token) :=
  readWithin [] tokens

theorem length_lt_of_readWithin {lists : List OpenList} {tokens rest : List Token} {node : Node}
    (h : readWithin lists tokens = .ok (node, rest)) : rest.length < tokens.length := by
  fun_induction readWithin lists tokens <;> simp_all <;> omega

theorem length_lt_of_read {tokens rest : List Token} {node : Node}
    (h : read tokens = .ok (node, rest)) : rest.length < tokens.length :=
  length_lt_of_readWithin h

/-- What a reader that holds the tokens yields next, with the tokens that it holds then.  After
a fault it holds none. -/
def next? (tokens : List Token) : Option (Except ReadError Node × List Token) :=
  if tokens.isEmpty then none
  else
    match read tokens with
    | .error error => some (.error error, [])
    | .ok (node, rest) => some (.ok node, rest)

/-- Reads every expression in front of the first fault, and gives the fault if there is
one. -/
def readAll (tokens : List Token) : List Node × Option ReadError :=
  if tokens.isEmpty then ([], none)
  else
    match h : read tokens with
    | .error error => ([], some error)
    | .ok (node, rest) =>
      have := length_lt_of_read h
      let (nodes, error) := readAll rest
      (node :: nodes, error)
termination_by tokens.length

/-- The expressions of a text, unless it has a fault. -/
def parse (text : String) : Except ReadError (List Node) :=
  match readAll (Token.tokenize text) with
  | (nodes, none) => .ok nodes
  | (_, some error) => .error error

end Reader

end TinyLisp
