import TinyLisp.Number.Layout
import TinyLisp.Token

/-!
# Nodes

The expressions of the language as the reader gives them: numbers, symbols and lists,
each with the span of source text that it was read from.

`Node.render` writes a node on one line, without regard to its spans.
-/

namespace TinyLisp

/-- An expression and where it stands. -/
inductive Node where
  | number (value : Float) (span : Span)
  | symbol (name : String) (span : Span)
  | list (children : List Node) (span : Span)
  deriving Inhabited

namespace Node

/-- The source text that a node covers. -/
def span : Node → Span
  | number _ span => span
  | symbol _ span => span
  | list _ span => span

mutual

/-- A node as text, with single spaces between the children of a list. -/
def render : Node → String
  | number value _ => Number.render .plain value
  | symbol name _ => name
  | list children _ => "(" ++ renderAll children ++ ")"

/-- Nodes as text, with single spaces between them. -/
def renderAll : List Node → String
  | [] => ""
  | [node] => node.render
  | node :: next :: rest => node.render ++ " " ++ renderAll (next :: rest)

end

end Node

end TinyLisp
