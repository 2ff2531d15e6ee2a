/-!
# Paren balance

Whether the parens of a text match.  Only the characters `(` and `)` count, so this is
decided without reading the text.  A `)` that closes nothing can never be mended by what
follows; a `(` that is still open can.
-/

namespace TinyLisp

/-- What the parens of a text amount to. -/
inductive Balance where
  /-- Every paren has its partner. -/
  | balanced
  /-- Some `(` is still open at the end. -/
  | unclosed
  /-- The `)` at this byte offset, the first such one, closes nothing. -/
  | stray (offset : Nat)
  deriving DecidableEq, Repr

namespace Balance

/-- The balance of the characters from the byte offset `offset` on, with `depth` parens
open. -/
def scan (offset depth : Nat) : List Char → Balance
  | [] => if depth = 0 then .balanced else .unclosed
  | c :: rest =>
    if c = '(' then scan (offset + c.utf8Size) (depth + 1) rest
    else if c = ')' then
      match depth with
      | 0 => .stray offset
      | depth + 1 => scan (offset + c.utf8Size) depth rest
    else scan (offset + c.utf8Size) depth rest

/-- The balance of a text. -/
def ofText (text : String) : Balance :=
  scan 0 0 text.toList

end Balance

end TinyLisp
