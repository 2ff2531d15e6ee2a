import Mathlib.Data.List.Basic
import TinyLisp.Proofs.Semantics

/-!
# What builtins refuse

Arguments are numbers throughout, or they are numbers up to a procedure:
`numbers_or_procedure`.  In the second case every builtin but `begin` names that procedure,
and in the first it can only fail because it would divide by zero, or because the number of
arguments is wrong.
-/

namespace TinyLisp.Builtin

variable {builtin : Builtin}

/-- With the right number of arguments a builtin is not stopped before it operates. -/
theorem call_of_admits {arguments : List Value}
    (h : builtin.arity.Admits arguments.length) :
    builtin.call arguments = builtin.operate arguments := by
  unfold call
  cases harity : builtin.arity with
  | variadic => rfl
  | exactly expected =>
    rw [harity] at h
    exact if_pos h

/-- The value of a call is that of the operation. -/
theorem operate_of_call {arguments : List Value} {value : Value}
    (h : builtin.call arguments = .ok value) : builtin.operate arguments = .ok value := by
  unfold call at h
  split at h
  · exact h
  · split at h
    · exact h
    · cases h

/-- Arguments are numbers throughout, or numbers up to a procedure. -/
theorem numbers_or_procedure (arguments : List Value) :
    (∃ xs : List Float, arguments = xs.map Value.number) ∨
      ∃ (xs : List Float) (procedure : Procedure) (rest : List Value),
        arguments = xs.map Value.number ++ .procedure procedure :: rest := by
  induction arguments with
  | nil => exact .inl ⟨[], rfl⟩
  | cons argument rest ih =>
    cases argument with
    | procedure p => exact .inr ⟨[], p, rest, rfl⟩
    | number x =>
      rcases ih with ⟨xs, rfl⟩ | ⟨xs, p, later, rfl⟩
      · exact .inl ⟨x :: xs, rfl⟩
      · exact .inr ⟨x :: xs, p, later, rfl⟩

theorem numbersFrom_map_number (position : Nat) (xs : List Float) :
    builtin.numbersFrom position (xs.map Value.number) = .ok xs := by
  induction xs generalizing position with
  | nil => rfl
  | cons x rest ih => simp [numbersFrom, Value.number?, ih, Except.map]

theorem numbersFrom_append_procedure (position : Nat) (xs : List Float) (procedure : Procedure)
    (rest : List Value) :
    builtin.numbersFrom position (xs.map Value.number ++ .procedure procedure :: rest) =
      .error (.typeMismatch builtin (position + xs.length) procedure.kind) := by
  induction xs generalizing position with
  | nil => rfl
  | cons x later ih =>
    simp only [List.map_cons, List.cons_append, numbersFrom, Value.number?, ih, Except.map,
      List.length_cons]
    congr 2
    omega

theorem numbers_map_number (xs : List Float) : builtin.numbers (xs.map Value.number) = .ok xs :=
  numbersFrom_map_number 1 xs

theorem numbers_append_procedure (xs : List Float) (procedure : Procedure) (rest : List Value) :
    builtin.numbers (xs.map Value.number ++ .procedure procedure :: rest) =
      .error (.typeMismatch builtin (1 + xs.length) procedure.kind) :=
  numbersFrom_append_procedure 1 xs procedure rest

/-- A procedure among the arguments is refused, and the first one is named. -/
theorem operate_append_procedure (hsequence : builtin ≠ .sequence) (xs : List Float)
    (procedure : Procedure) (rest : List Value) :
    builtin.operate (xs.map Value.number ++ .procedure procedure :: rest) =
      .error (.typeMismatch builtin (1 + xs.length) procedure.kind) := by
  cases builtin with
  | sequence => exact absurd rfl hsequence
  | _ => simp only [operate, twoNumbers, numbers_append_procedure, bind, Except.bind]

theorem twoNumbers_pair (x y : Float) :
    builtin.twoNumbers [.number x, .number y] = .ok (x, y) := by
  have hnumbers : builtin.numbers [.number x, .number y] = .ok [x, y] := numbers_map_number [x, y]
  rw [twoNumbers, hnumbers]

/-- Numbers, if there are as many as the builtin takes, are refused only as a divisor. -/
theorem operate_map_number {xs : List Float} {fault : Fault}
    (hcount : builtin.arity.Admits xs.length)
    (h : builtin.operate (xs.map Value.number) = .error fault) :
    fault = .divisionByZero builtin ∧ (builtin = .divide ∨ builtin = .remainder) := by
  cases builtin with
  | sequence => cases h
  | add | multiply =>
    rw [operate, numbers_map_number] at h
    cases h
  | subtract | less | equal =>
    obtain ⟨x, y, rfl⟩ := List.length_eq_two.mp hcount
    simp [operate, twoNumbers_pair] at h
  | divide | remainder =>
    obtain ⟨x, y, rfl⟩ := List.length_eq_two.mp hcount
    simp only [List.map_cons, List.map_nil, operate, twoNumbers_pair, bind, Except.bind] at h
    split at h
    · cases h
      simp
    · cases h

/-- With the right number of arguments a builtin fails at a procedure among them, or because
it would divide by zero. -/
theorem operate_eq_error {arguments : List Value} {fault : Fault}
    (hcount : builtin.arity.Admits arguments.length)
    (h : builtin.operate arguments = .error fault) :
    (∃ (position : Nat) (procedure : Procedure), 1 ≤ position ∧ position ≤ arguments.length ∧
        fault = .typeMismatch builtin position procedure.kind) ∨
      fault = .divisionByZero builtin ∧ (builtin = .divide ∨ builtin = .remainder) := by
  rcases numbers_or_procedure arguments with ⟨xs, rfl⟩ | ⟨xs, p, rest, rfl⟩
  · rw [List.length_map] at hcount
    exact .inr (operate_map_number hcount h)
  · have hsequence : builtin ≠ .sequence := by
      rintro rfl
      cases h
    rw [operate_append_procedure hsequence] at h
    refine .inl ⟨1 + xs.length, p, by omega, ?_, (Except.error.inj h).symm⟩
    simp only [List.length_append, List.length_map, List.length_cons]
    omega

end TinyLisp.Builtin
