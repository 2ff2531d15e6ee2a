/-!
# Paren highlighting

While a line is typed, the pair of parens just before the cursor is shown in blue and
every `)` that closes nothing in red.
-/

namespace TinyLisp.Highlight

/-- The byte offsets of the parens of a text: matching pairs in the order of their closing
parens, and closing parens without a partner. -/
structure Pairing where
  pairs : List (Nat × Nat)
  strays : List Nat

/-- Pairs the parens from the byte offset `offset` on.  `opened` has the offsets of the open
parens, the innermost first. -/
def pairing (offset : Nat) (opened : List Nat) : List Char → Pairing
  | [] => ⟨[], []⟩
  | c :: rest =>
    let next := offset + c.utf8Size
    if c = '(' then pairing next (offset :: opened) rest
    else if c = ')' then
      match opened with
      | [] =>
        let later := pairing next [] rest
        { later with strays := offset :: later.strays }
      | start :: outer =>
        let later := pairing next outer rest
        { later with pairs := (start, offset) :: later.pairs }
    else pairing next opened rest

/-- Whether the cursor is just behind one of the two parens of a pair. -/
def isAt (cursor : Nat) (pair : Nat × Nat) : Bool :=
  cursor = pair.1 + 1 || cursor = pair.2 + 1

/-- A character between the codes for red and for no colour. -/
def red (c : Char) : String :=
  "\x1b[31m" ++ c.toString ++ "\x1b[0m"

/-- A character between the codes for bold blue and for no colour. -/
def blue (c : Char) : String :=
  "\x1b[1;34m" ++ c.toString ++ "\x1b[0m"

/-- The characters from the byte offset `offset` on, with those at `strays` in red and those
of the active pair in blue. -/
def paint (strays : List Nat) (active : Option (Nat × Nat)) (offset : Nat) : List Char → String
  | [] => ""
  | c :: rest =>
    let painted :=
      if strays.contains offset then red c
      else
        match active with
        | some (start, stop) => if offset = start || offset = stop then blue c else c.toString
        | none => c.toString
    painted ++ paint strays active (offset + c.utf8Size) rest

/-- The line with its colours, or nothing if no paren is to be coloured.  `cursor` is a byte
offset. -/
def highlight? (line : String) (cursor : Nat) : Option String :=
  let ⟨pairs, strays⟩ := pairing 0 [] line.toList
  let active := pairs.find? (isAt cursor)
  if active.isNone && strays.isEmpty then none
  else some (paint strays active 0 line.toList)

end TinyLisp.Highlight
