import TinyLisp.Span
import TinyLisp.Text.Blank

/-!
# Tokens

A source text is a sequence of parens and atoms with blanks between them.  An atom
is a longest run of characters that are neither blank nor paren, so every text has
exactly one sequence of tokens.
-/

namespace TinyLisp

/-- What a token is. -/
inductive TokenKind where
  /-- The paren `(`. -/
  | opening
  /-- The paren `)`. -/
  | closing
  /-- A number or a name. -/
  | atom (text : String)
  deriving DecidableEq, Repr

/-- A token and the bytes that it covers. -/
structure Token where
  kind : TokenKind
  span : Span
  deriving DecidableEq, Repr

namespace TokenKind

/-- The text of a token. -/
def text : TokenKind → String
  | opening => "("
  | closing => ")"
  | atom text => text

end TokenKind

namespace Token

/-- A character that belongs to an atom. -/
def isAtomChar (c : Char) : Bool :=
  !Text.isBlank c && c != '(' && c != ')'

/-- Puts the atom `word`, its letters in reverse, in front of `tokens`.  The atom ends at
`stop`.  An empty word is no atom. -/
def endWord (stop : Nat) (word : List Char) (tokens : List Token) : List Token :=
  if word.isEmpty then tokens
  else ⟨.atom (String.ofList word.reverse), ⟨stop - Text.byteSize word, stop⟩⟩ :: tokens

/-- The kind of token that a paren is. -/
def paren? (c : Char) : Option TokenKind :=
  if c = '(' then some .opening else if c = ')' then some .closing else none

/-- The tokens of a text from the offset `pos` on, where `word` is the part already read
of an atom that reaches up to `pos`, its letters in reverse. -/
def scan (pos : Nat) (word : List Char) : List Char → List Token
  | [] => endWord pos word []
  | c :: rest =>
    let next := pos + c.utf8Size
    if isAtomChar c then scan next (c :: word) rest
    else
      let later := scan next [] rest
      endWord pos word <|
        match paren? c with
        | some kind => ⟨kind, ⟨pos, next⟩⟩ :: later
        | none => later

/-- The tokens of a text. -/
def tokenize (text : String) : List Token :=
  scan 0 [] text.toList

/-- A character belongs to an atom, is a paren, or is blank. -/
theorem isBlank_of_not_isAtomChar {c : Char} (h : isAtomChar c = false) (hp : paren? c = none) :
    Text.isBlank c = true := by
  simp only [isAtomChar, paren?] at h hp
  split at hp
  · simp at hp
  · split at hp
    · simp at hp
    · simp_all

theorem paren?_eq_none_of_isAtomChar {c : Char} (h : isAtomChar c = true) : paren? c = none := by
  simp_all [isAtomChar, paren?]

end Token

end TinyLisp
