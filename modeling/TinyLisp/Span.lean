/-!
# Spans

A span is a range of a source text, given by the byte offsets of its two ends in
UTF-8.  The end is exclusive.
-/

namespace TinyLisp

/-- The range of bytes from `start` up to, but not including, `stop`. -/
structure Span where
  start : Nat
  stop : Nat
  deriving DecidableEq, Repr, Inhabited

namespace Span

/-- The least span that covers two spans. -/
def merge (a b : Span) : Span :=
  ⟨min a.start b.start, max a.stop b.stop⟩

/-- A span as text: its two ends with two points between them. -/
def render (s : Span) : String :=
  toString s.start ++ ".." ++ toString s.stop

theorem merge_comm (a b : Span) : a.merge b = b.merge a := by
  simp [merge, Nat.min_comm, Nat.max_comm]

@[simp] theorem merge_self (a : Span) : a.merge a = a := by
  simp [merge]

end Span

end TinyLisp
