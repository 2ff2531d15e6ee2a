import TinyLisp.Fault
import TinyLisp.Store

/-!
# Evaluations

An evaluation reads and changes the store, and gives a value or an error.  What it did
to the store before an error stays done.  It may also run out of depth and give no
answer at all.

The lemmas say what an evaluation does to a given store, so that a proof need not look
at how evaluations are put together.
-/

namespace TinyLisp

/-- From a store to a value or an error and the store afterwards, or to no answer. -/
abbrev Evaluation (α : Type) := ExceptT EvalError (StateT Store Option) α

namespace Evaluation

variable {α β : Type}

/-- Gives no answer. -/
def outOfDepth : Evaluation α :=
  fun _ => none

/-- Fails without a change to the store. -/
def fail (fault : Fault) (span : Span) : Evaluation α :=
  throw ⟨fault, span⟩

/-- Gives the outcome of a pure operation, with `span` for its fault. -/
def ofExcept (span : Span) : Except Fault α → Evaluation α
  | .ok value => pure value
  | .error fault => fail fault span

/-! ## What evaluations do to a store -/

theorem pure_apply (a : α) (store : Store) :
    (pure a : Evaluation α) store = some (.ok a, store) :=
  rfl

theorem fail_apply (fault : Fault) (span : Span) (store : Store) :
    (fail fault span : Evaluation α) store = some (.error ⟨fault, span⟩, store) :=
  rfl

theorem get_apply (store : Store) : (get : Evaluation Store) store = some (.ok store, store) := rfl

theorem modifyGet_apply (f : Store → α × Store) (store : Store) :
    (modifyGet f : Evaluation α) store = some (.ok (f store).1, (f store).2) :=
  rfl

/-- A sequence of two evaluations runs the second only after a value of the first. -/
theorem bind_apply (first : Evaluation α) (second : α → Evaluation β) (store : Store) :
    (first >>= second) store =
      match first store with
      | none => none
      | some (.error error, after) => some (.error error, after)
      | some (.ok a, after) => second a after := by
  simp only [bind, ExceptT.bind, ExceptT.mk, StateT.bind]
  rcases first store with _ | ⟨_ | a, after⟩ <;> rfl

/-- A sequence of two evaluations answers if the first fails, or if it gives a value and the
second answers. -/
theorem bind_eq_some_iff {first : Evaluation α} {second : α → Evaluation β}
    {store after : Store} {result : Except EvalError β} :
    (first >>= second) store = some (result, after) ↔
      (∃ error, first store = some (.error error, after) ∧ result = .error error) ∨
        ∃ a between, first store = some (.ok a, between) ∧
          second a between = some (result, after) := by
  rw [bind_apply]
  rcases first store with _ | ⟨_ | a, between⟩
  · simp
  · simp [and_assoc, and_comm, eq_comm]
  · simp [and_assoc]

end Evaluation

end TinyLisp
