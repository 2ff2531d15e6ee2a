import TinyLisp.Text.NameSet

/-!
# Keywords

The six words at the head of a list that have an evaluation rule of their own.
-/

namespace TinyLisp

/-- A special form. -/
inductive Keyword where
  | define
  | set
  | if
  | or
  | and
  | lambda
  deriving DecidableEq, Repr

namespace Keyword

/-- Every keyword. -/
def all : List Keyword :=
  [define, set, .if, or, and, lambda]

/-- The word as it is written in a program. -/
def word : Keyword → String
  | define => "define"
  | set => "set!"
  | .if => "if"
  | or => "or"
  | and => "and"
  | lambda => "lambda"

/-- The keyword that a name is, if it is one. -/
def ofName? (name : String) : Option Keyword :=
  all.find? fun keyword => keyword.word = name

/-- The words of all keywords, in order. -/
def words : List String :=
  Text.nameSet (all.map word)

theorem mem_all (keyword : Keyword) : keyword ∈ all := by
  cases keyword <;> decide

theorem ofName?_word (keyword : Keyword) : ofName? keyword.word = some keyword := by
  cases keyword <;> decide

theorem word_of_ofName? {name : String} {keyword : Keyword}
    (h : ofName? name = some keyword) : keyword.word = name := by
  simpa using List.find?_some h

/-- Exactly the words of the keywords are keywords. -/
theorem ofName?_eq_some_iff {name : String} {keyword : Keyword} :
    ofName? name = some keyword ↔ keyword.word = name :=
  ⟨word_of_ofName?, fun h => h ▸ ofName?_word keyword⟩

end Keyword

end TinyLisp
