import TinyLisp.Session

/-!
# Outlines

An outline spells out the structure of a token, a node, a result or an error: records
with their fields, variants with their arguments, lists and quoted texts.  Numbers in it
are laid out in detail.
-/

namespace TinyLisp.Outline

/-! ## Pieces -/

/-- Items with commas between them. -/
def commas (items : List String) : String :=
  String.intercalate ", " items

/-- A record with its fields. -/
def record (name : String) (fields : List (String × String)) : String :=
  name ++ " \x7b " ++ commas (fields.map fun (field, value) => field ++ ": " ++ value) ++ " \x7d"

/-- A variant with its arguments. -/
def variant (name : String) (arguments : List String) : String :=
  name ++ "(" ++ commas arguments ++ ")"

/-- A list. -/
def sequence (items : List String) : String :=
  "[" ++ commas items ++ "]"

/-! ## Syntax -/

/-- The outline of a span. -/
def span (s : Span) : String :=
  record "Span" [("start", toString s.start), ("end", toString s.stop)]

/-- The outline of a kind of token. -/
def tokenKind : TokenKind → String
  | .opening => "LParen"
  | .closing => "RParen"
  | .atom text => variant "Atom" [Text.quoted text]

/-- The outline of a token. -/
def token (t : Token) : String :=
  record "Token" [("kind", tokenKind t.kind), ("span", span t.span)]

/-- The outline of a node, given that of its kind. -/
def located (kind : String) (s : Span) : String :=
  record "Node" [("kind", kind), ("span", span s)]

/-- The outline of a number. -/
def number (x : Float) : String :=
  variant "Number" [Number.render .detailed x]

mutual

/-- The outline of a node. -/
def node : Node → String
  | .number value s => located (number value) s
  | .symbol name s => located (variant "Symbol" [Text.quoted name]) s
  | .list children s => located (variant "List" [sequence (nodes children)]) s

/-- The outlines of nodes. -/
def nodes : List Node → List String
  | [] => []
  | first :: rest => node first :: nodes rest

end

/-! ## Values -/

/-- The outline of an arity. -/
def arity : Arity → String
  | .variadic => "Variadic"
  | .exactly count => variant "Exactly" [toString count]

/-- The outline of a procedure.  The frame of a closure is left out. -/
def procedure : Procedure → String
  | .builtin b => variant "Builtin" [variant "Builtin" [b.name, arity b.arity]]
  | .closure c =>
    variant "Lambda"
      ["Lambda \x7b params: " ++ sequence (c.parameters.map Text.quoted) ++ ", body: "
        ++ node c.body ++ ", .. \x7d"]

/-- The outline of a value. -/
def value : Value → String
  | .number x => number x
  | .procedure p => variant "Procedure" [procedure p]

/-! ## Results -/

/-- The outline of a reading error. -/
def readError : ReadError → String
  | .endOfInput => "UnexpectedEndOfInput"
  | .strayClose s => variant "UnexpectedCloseParen" [span s]
  | .unclosed s => variant "UnbalancedExpression" [span s]

/-- The outline of a keyword. -/
def keyword : Keyword → String
  | .define => "Define"
  | .set => "Set"
  | .if => "If"
  | .or => "Or"
  | .and => "And"
  | .lambda => "Lambda"

/-- The outline of an evaluation error. -/
def evalError (error : EvalError) : String :=
  let place := ("span", span error.span)
  match error.fault with
  | .unboundName name => variant "Env" [variant "UnboundName" [Text.quoted name, span error.span]]
  | .emptyApplication => variant "EmptyApplication" [span error.span]
  | .malformed form complaint =>
    record "MalformedSpecialForm"
      [("form", keyword form), ("message", Text.quoted complaint.message), place]
  | .notCallable found =>
    record "NotCallable" [("found", Text.quoted (Number.render .plain found)), place]
  | .arityMismatch callee expected found =>
    record "ArityMismatch"
      [("name", Text.quoted callee.name), ("expected", toString expected),
        ("found", toString found), place]
  | .typeMismatch builtin position found =>
    record "TypeMismatch"
      [("name", Text.quoted builtin.name), ("position", toString position),
        ("found", Text.quoted found.word), place]
  | .divisionByZero builtin =>
    record "DivisionByZero" [("name", Text.quoted builtin.name), place]

/-- The outline of an error of a source text. -/
def sourceError : SourceError → String
  | .read error => variant "Parse" [readError error]
  | .eval error => variant "Eval" [evalError error]
  | .unreadable path reason =>
    record "Io" [("path", Text.quoted path), ("source", Text.quoted reason)]

/-- The outline of what a source text gives. -/
def result : SourceResult → String
  | .ok none => "None"
  | .ok (some v) => variant "Some" [value v]
  | .error error => sourceError error

end TinyLisp.Outline
