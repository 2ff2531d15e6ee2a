import TinyLisp.Proofs.Builtins

/-!
# Which calls of builtins fail

A call looks at the number of arguments, then at the arguments from left to right, and then it may
still find a divisor that is zero.  The operation, when it is applied without a call, looks at the
arguments first and at their number behind that.  So the two differ only if the number is wrong and
a procedure is among the arguments.

* `Builtin.FirstProcedure`: the argument that is named where numbers are wanted.
* `call_of_not_admits` and `operate_of_not_admits`: the two answers to a wrong number of arguments.
* `call_of_numbers`: what a call gives that neither the number nor the kind of its arguments stops.
* `call_classified`: every call and every operation.
-/

namespace TinyLisp.Builtin

open Evaluation

variable {builtin : Builtin} {arguments : List Value}

/-! ## The first procedure -/

/-- The argument at this index, counted from zero, is a procedure, and none before it is. -/
structure FirstProcedure (arguments : List Value) (index : Nat) (procedure : Procedure) :
    Prop where
  here : arguments[index]? = some (.procedure procedure)
  before : ∀ earlier < index, ∀ other, arguments[earlier]? ≠ some (.procedure other)

theorem firstProcedure_append (xs : List Float) (procedure : Procedure) (rest : List Value) :
    FirstProcedure (xs.map Value.number ++ .procedure procedure :: rest) xs.length procedure where
  here := by simp
  before := by
    intro earlier hlt other
    rw [List.getElem?_append_left (by simpa using hlt), List.getElem?_map]
    cases xs[earlier]? <;> simp

/-- There is no more than one first procedure. -/
theorem FirstProcedure.unique {first second : Nat} {procedure other : Procedure}
    (h : FirstProcedure arguments first procedure)
    (h' : FirstProcedure arguments second other) : first = second ∧ procedure = other := by
  have hle : ¬ first < second := fun hlt => h'.before first hlt procedure h.here
  have hge : ¬ second < first := fun hlt => h.before second hlt other h'.here
  have heq : first = second := by omega
  subst heq
  have hsame := h.here.symm.trans h'.here
  cases hsame
  exact ⟨rfl, rfl⟩

/-- Arguments without a procedure are numbers. -/
theorem exists_numbers (h : ∀ procedure, Value.procedure procedure ∉ arguments) :
    ∃ xs : List Float, arguments = xs.map Value.number := by
  rcases numbers_or_procedure arguments with hnumbers | ⟨xs, procedure, rest, rfl⟩
  · exact hnumbers
  · exact absurd (by simp) (h procedure)

/-- If there is a procedure among the arguments, there is a first one. -/
theorem exists_firstProcedure_iff :
    (∃ index procedure, FirstProcedure arguments index procedure) ↔
      ∃ procedure, .procedure procedure ∈ arguments := by
  constructor
  · rintro ⟨index, procedure, hfirst⟩
    exact ⟨procedure, List.mem_of_getElem? hfirst.here⟩
  · rintro ⟨procedure, hmem⟩
    rcases numbers_or_procedure arguments with ⟨xs, rfl⟩ | ⟨xs, first, rest, rfl⟩
    · simp at hmem
    · exact ⟨xs.length, first, firstProcedure_append xs first rest⟩

/-- In front of the first procedure are numbers only. -/
theorem FirstProcedure.exists_numbers {index : Nat} {procedure : Procedure}
    (h : FirstProcedure arguments index procedure) :
    ∃ (xs : List Float) (rest : List Value),
      arguments = xs.map Value.number ++ .procedure procedure :: rest ∧ xs.length = index := by
  rcases numbers_or_procedure arguments with ⟨xs, rfl⟩ | ⟨xs, other, rest, rfl⟩
  · have hmem := List.mem_of_getElem? h.here
    simp at hmem
  · obtain ⟨hindex, rfl⟩ := (firstProcedure_append xs other rest).unique h
    exact ⟨xs, rest, rfl, hindex⟩

theorem FirstProcedure.operate_eq {index : Nat} {procedure : Procedure}
    (h : FirstProcedure arguments index procedure) (hsequence : builtin ≠ .sequence) :
    builtin.operate arguments =
      .error (.typeMismatch builtin (1 + index) procedure.kind) := by
  obtain ⟨xs, rest, rfl, rfl⟩ := h.exists_numbers
  exact operate_append_procedure hsequence xs procedure rest

/-! ## The number of arguments -/

/-- A builtin that does not take this number of arguments takes two. -/
theorem exists_of_not_admits (h : ¬ builtin.arity.Admits arguments.length) :
    builtin.arity = .exactly 2 ∧ builtin ≠ .sequence ∧ arguments.length ≠ 2 := by
  cases builtin with
  | add | multiply | sequence => exact absurd trivial h
  | subtract | divide | remainder | less | equal => exact ⟨rfl, by decide, h⟩

theorem call_of_not_admits (h : ¬ builtin.arity.Admits arguments.length) :
    builtin.call arguments =
      .error (.arityMismatch (.builtin builtin) 2 arguments.length) := by
  obtain ⟨harity, -, hcount⟩ := exists_of_not_admits h
  unfold call
  rw [harity]
  exact if_neg hcount

theorem twoNumbers_of_length_ne {xs : List Float} (h : xs.length ≠ 2) :
    builtin.twoNumbers (xs.map Value.number) =
      .error (.arityMismatch (.builtin builtin) 2 xs.length) := by
  unfold twoNumbers
  rw [numbers_map_number]
  split
  · rename_i hnumbers
    cases hnumbers
  · rename_i left right hnumbers
    cases hnumbers
    exact absurd rfl h
  · rename_i others _ hnumbers
    cases hnumbers
    rfl

/-- An operation counts its arguments when all of them are numbers. -/
theorem operate_of_not_admits {xs : List Float} (h : ¬ builtin.arity.Admits xs.length) :
    builtin.operate (xs.map Value.number) =
      .error (.arityMismatch (.builtin builtin) 2 xs.length) := by
  have hcount : ¬ builtin.arity.Admits (xs.map Value.number).length := by simpa using h
  obtain ⟨-, -, hne⟩ := exists_of_not_admits hcount
  rw [List.length_map] at hne
  cases builtin with
  | add | multiply | sequence => exact absurd trivial h
  | subtract | divide | remainder | less | equal =>
    simp only [operate, twoNumbers_of_length_ne hne, bind, Except.bind]

/-- No operation has a value for a number of arguments that its builtin does not take. -/
theorem operate_ne_ok_of_not_admits (h : ¬ builtin.arity.Admits arguments.length)
    (value : Value) : builtin.operate arguments ≠ .ok value := by
  obtain ⟨-, hsequence, -⟩ := exists_of_not_admits h
  rcases numbers_or_procedure arguments with ⟨xs, rfl⟩ | ⟨xs, procedure, rest, rfl⟩
  · rw [operate_of_not_admits (by simpa using h)]
    simp
  · rw [operate_append_procedure hsequence]
    simp

/-! ## Numbers -/

/-- Numbers, if there are as many as the builtin takes, give a number, but for a divisor. -/
theorem call_of_numbers (hcount : builtin.arity.Admits arguments.length)
    (h : ∀ procedure, Value.procedure procedure ∉ arguments) :
    (∃ x, builtin.call arguments = .ok (.number x)) ∨
      (builtin = .divide ∨ builtin = .remainder) ∧
        builtin.call arguments = .error (.divisionByZero builtin) := by
  obtain ⟨xs, rfl⟩ := exists_numbers h
  rw [call_of_admits hcount]
  cases hoperate : builtin.operate (xs.map Value.number) with
  | error fault =>
    rw [List.length_map] at hcount
    obtain ⟨rfl, hdivides⟩ := operate_map_number hcount hoperate
    exact .inr ⟨hdivides, rfl⟩
  | ok value =>
    left
    rcases operate_eq_ok hoperate with ⟨x, rfl⟩ | hmem
    · exact ⟨x, rfl⟩
    · obtain ⟨x, -, rfl⟩ := List.mem_map.mp hmem
      exact ⟨x, rfl⟩

/-- A call that runs the operation is never stopped there by the number of arguments. -/
theorem operate_ne_arityMismatch (hcount : builtin.arity.Admits arguments.length)
    (callee : Callee) (expected found : Nat) :
    builtin.operate arguments ≠ .error (.arityMismatch callee expected found) := by
  intro h
  rcases operate_eq_error hcount h with ⟨_, _, _, _, hfault⟩ | ⟨hfault, _⟩ <;> cases hfault

theorem call_eq_arityMismatch_iff {callee : Callee} {expected found : Nat} :
    builtin.call arguments = .error (.arityMismatch callee expected found) ↔
      callee = .builtin builtin ∧ builtin.arity = .exactly expected ∧
        found = arguments.length ∧ arguments.length ≠ expected := by
  by_cases hcount : builtin.arity.Admits arguments.length
  · rw [call_of_admits hcount]
    refine iff_of_false (operate_ne_arityMismatch hcount callee expected found) ?_
    rintro ⟨-, harity, -, hne⟩
    rw [harity] at hcount
    exact hne hcount
  · obtain ⟨harity, -, hne⟩ := exists_of_not_admits hcount
    rw [call_of_not_admits hcount, harity]
    constructor
    · intro h
      cases h
      exact ⟨rfl, rfl, rfl, hne⟩
    · rintro ⟨rfl, hexpected, rfl, -⟩
      cases hexpected
      rfl

theorem call_eq_typeMismatch_iff (hcount : builtin.arity.Admits arguments.length)
    (hsequence : builtin ≠ .sequence) {named : Builtin} {position : Nat} {kind : ValueKind} :
    builtin.call arguments = .error (.typeMismatch named position kind) ↔
      named = builtin ∧ ∃ index procedure, FirstProcedure arguments index procedure ∧
        position = 1 + index ∧ kind = procedure.kind := by
  constructor
  · intro h
    by_cases hnumbers : ∀ procedure, Value.procedure procedure ∉ arguments
    · rcases call_of_numbers hcount hnumbers with ⟨x, hvalue⟩ | ⟨-, hfault⟩
      · cases hvalue.symm.trans h
      · cases hfault.symm.trans h
    · push Not at hnumbers
      obtain ⟨index, procedure, hfirst⟩ := exists_firstProcedure_iff.mpr hnumbers
      rw [call_of_admits hcount, hfirst.operate_eq hsequence] at h
      cases h
      exact ⟨rfl, index, procedure, hfirst, rfl, rfl⟩
  · rintro ⟨rfl, index, procedure, hfirst, rfl, rfl⟩
    rw [call_of_admits hcount, hfirst.operate_eq hsequence]

theorem exists_call_eq_typeMismatch_iff (hcount : builtin.arity.Admits arguments.length)
    (hsequence : builtin ≠ .sequence) :
    (∃ named position kind,
        builtin.call arguments = .error (.typeMismatch named position kind)) ↔
      ∃ procedure, .procedure procedure ∈ arguments := by
  rw [← exists_firstProcedure_iff]
  constructor
  · rintro ⟨named, position, kind, h⟩
    obtain ⟨-, index, procedure, hfirst, -⟩ := (call_eq_typeMismatch_iff hcount hsequence).mp h
    exact ⟨index, procedure, hfirst⟩
  · rintro ⟨index, procedure, hfirst⟩
    exact ⟨_, _, _, (call_eq_typeMismatch_iff hcount hsequence).mpr
      ⟨rfl, index, procedure, hfirst, rfl, rfl⟩⟩

/-! ## All calls -/

/-- A call gives its span to whatever fault it has, and leaves the store alone.  It is refused for
the number of its arguments exactly if the builtin takes a fixed number and was given another one.
Otherwise every builtin but `begin` names the first argument that is a procedure, if one is.  If
all are numbers it gives a number, unless it would divide by zero.  `begin` gives its last argument,
or zero.

The operation by itself gives what the call gives if the number of arguments is right, and then it
is not what counts them.  If that number is wrong it names the first procedure, or, if there is
none, is refused as the call is. -/
theorem call_classified (builtin : Builtin) (arguments : List Value) :
    (∀ depth span store, apply depth (.builtin builtin) arguments span store =
      some ((builtin.call arguments).mapError (EvalError.mk · span), store)) ∧
    (∀ callee expected found,
      builtin.call arguments = .error (.arityMismatch callee expected found) ↔
        callee = .builtin builtin ∧ builtin.arity = .exactly expected ∧
          found = arguments.length ∧ arguments.length ≠ expected) ∧
    (builtin.arity.Admits arguments.length → builtin ≠ .sequence →
      ((∃ named position kind,
          builtin.call arguments = .error (.typeMismatch named position kind)) ↔
        ∃ procedure, .procedure procedure ∈ arguments) ∧
      (∀ named position kind,
        builtin.call arguments = .error (.typeMismatch named position kind) ↔
          named = builtin ∧ ∃ index procedure, FirstProcedure arguments index procedure ∧
            position = 1 + index ∧ kind = procedure.kind) ∧
      ((∀ procedure, .procedure procedure ∉ arguments) →
        (∃ x, builtin.call arguments = .ok (.number x)) ∨
          (builtin = .divide ∨ builtin = .remainder) ∧
            builtin.call arguments = .error (.divisionByZero builtin))) ∧
    sequence.call arguments = .ok (arguments.getLast?.getD (.number 0)) ∧
    (builtin.arity.Admits arguments.length →
      builtin.operate arguments = builtin.call arguments ∧
      ∀ callee expected found,
        builtin.operate arguments ≠ .error (.arityMismatch callee expected found)) ∧
    (¬ builtin.arity.Admits arguments.length →
      (∀ index procedure, FirstProcedure arguments index procedure →
        builtin.operate arguments =
          .error (.typeMismatch builtin (1 + index) procedure.kind)) ∧
      ((∀ procedure, .procedure procedure ∉ arguments) →
        builtin.operate arguments = builtin.call arguments) ∧
      ∀ value, builtin.operate arguments ≠ .ok value) := by
  refine ⟨fun depth span store => ?_, fun _ _ _ => call_eq_arityMismatch_iff,
    fun hcount hsequence => ⟨exists_call_eq_typeMismatch_iff hcount hsequence,
      fun _ _ _ => call_eq_typeMismatch_iff hcount hsequence, call_of_numbers hcount⟩, rfl,
    fun hcount => ⟨(call_of_admits hcount).symm, operate_ne_arityMismatch hcount⟩,
    fun hcount => ⟨fun index procedure hfirst => ?_, fun hnumbers => ?_,
      operate_ne_ok_of_not_admits hcount⟩⟩
  · show ofExcept span (builtin.call arguments) store = _
    cases builtin.call arguments <;> rfl
  · exact hfirst.operate_eq (exists_of_not_admits hcount).2.1
  · obtain ⟨xs, rfl⟩ := exists_numbers hnumbers
    rw [call_of_not_admits hcount, List.length_map]
    exact operate_of_not_admits (by simpa using hcount)

/-- Three arguments are too many for `-`.  The call says so, and the operation names the `+` among
them.  Of two arguments the call names the `+` as well.  Two numbers are refused as a divisor, if at
all. -/
theorem call_classified_mixed :
    (¬ Arity.Admits (.exactly 2) 3 ∧
      FirstProcedure [.number 1, .procedure (.builtin .add), .procedure (.builtin .less)] 1
        (.builtin .add) ∧
      subtract.call [.number 1, .procedure (.builtin .add), .procedure (.builtin .less)] =
        .error (.arityMismatch (.builtin .subtract) 2 3) ∧
      subtract.operate [.number 1, .procedure (.builtin .add), .procedure (.builtin .less)] =
        .error (.typeMismatch .subtract 2 .builtin)) ∧
    (Arity.Admits (.exactly 2) 2 ∧ subtract ≠ sequence ∧
      FirstProcedure [.number 1, .procedure (.builtin .add)] 1 (.builtin .add) ∧
      subtract.call [.number 1, .procedure (.builtin .add)] =
        .error (.typeMismatch .subtract 2 .builtin)) ∧
    (Arity.Admits (.exactly 2) 2 ∧ remainder ≠ sequence ∧
      (∀ procedure, Value.procedure procedure ∉ [.number 1, .number 0]) ∧
      ((∃ x, remainder.call [.number 1, .number 0] = .ok (.number x)) ∨
        remainder.call [.number 1, .number 0] = .error (.divisionByZero .remainder))) := by
  have hcount : ¬ Arity.Admits (.exactly 2) 3 := by
    show ¬ 3 = 2
    decide
  have hfirst : FirstProcedure
      [.number 1, .procedure (.builtin .add), .procedure (.builtin .less)] 1 (.builtin .add) :=
    firstProcedure_append [1] _ _
  have hpair : FirstProcedure [.number 1, .procedure (.builtin .add)] 1 (.builtin .add) :=
    firstProcedure_append [1] _ _
  have hnumbers : ∀ procedure, Value.procedure procedure ∉ [.number 1, .number 0] := by simp
  obtain ⟨-, hthree, -, -, -, hwrong⟩ := call_classified subtract
    [.number 1, .procedure (.builtin .add), .procedure (.builtin .less)]
  obtain ⟨-, -, htwo, -, -, -⟩ := call_classified subtract
    [.number 1, .procedure (.builtin .add)]
  obtain ⟨-, -, hzero, -, -, -⟩ := call_classified remainder [.number 1, .number 0]
  exact ⟨⟨hcount, hfirst, (hthree _ _ _).mpr ⟨rfl, rfl, rfl, by decide⟩,
      (hwrong hcount).1 1 _ hfirst⟩,
    ⟨rfl, by decide, hpair,
      ((htwo rfl (by decide)).2.1 _ _ _).mpr ⟨rfl, 1, _, hpair, rfl, rfl⟩⟩,
    ⟨rfl, by decide, hnumbers, ((hzero rfl (by decide)).2.2 hnumbers).imp_right And.right⟩⟩

end TinyLisp.Builtin
