/-!
# Ranges of code points

A Unicode property is kept as the ascending list of the ranges of code points
that have it.
-/

namespace TinyLisp.Text

/-- Inclusive ranges of code points, in ascending order. -/
abbrev CodeRanges := List (Nat × Nat)

/-- Whether a range holds `code`.  The search stops at the first range past it. -/
def CodeRanges.holds : CodeRanges → Nat → Bool
  | [], _ => false
  | (first, last) :: rest, code =>
    if code < first then false
    else code ≤ last || CodeRanges.holds rest code

end TinyLisp.Text
