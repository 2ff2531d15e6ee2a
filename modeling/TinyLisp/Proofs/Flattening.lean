import TinyLisp.Proofs.Adequacy

/-!
# Nested `or` and `and`

The operands of an `or` inside of another one can stand in the outer one in its place, and the
same holds of `and`.  The operands are evaluated in the same order and up to the same one, whatever
they do and wherever they fail.  An inner `and` without operands is an exception: it gives one, and
not the value before it.  That shows only if no operand comes behind it.

* `Evaluation.untilTrue` and `Evaluation.whileTrue`: one operand and then the others.  Both are
  associative.
* `firstTrue_append` and `allTrue_append`: operands in two groups.
* `eval_or_nested` and `eval_and_nested`: three groups, the second of which is evaluated with one
  level of nesting less.
* `exists_eval_nested_iff`: the answers are those of the flat form.
-/

namespace TinyLisp

open Evaluation

/-! ## One operand and the others -/

namespace Evaluation

variable {first second small large : Evaluation Value} {next later : Value → Evaluation Value}

/-- Gives a value that is true, and goes on with the second evaluation after one that is not. -/
def untilTrue (first second : Evaluation Value) : Evaluation Value := do
  let value ← first
  if value.isTruthy then return value else second

/-- Goes on after a value that is true, and gives one that is not. -/
def whileTrue (first : Evaluation Value) (next : Value → Evaluation Value) :
    Evaluation Value := do
  let value ← first
  if value.isTruthy then next value else return value

theorem untilTrue_assoc (first second third : Evaluation Value) :
    (first.untilTrue second).untilTrue third = first.untilTrue (second.untilTrue third) := by
  simp only [untilTrue, bind_assoc]
  congr 1
  funext value
  split
  · rw [pure_bind, if_pos ‹_›]
  · rfl

theorem whileTrue_assoc (first : Evaluation Value) (next later : Value → Evaluation Value) :
    (first.whileTrue next).whileTrue later =
      first.whileTrue fun value => (next value).whileTrue later := by
  simp only [whileTrue, bind_assoc]
  congr 1
  funext value
  split
  · rfl
  · rw [pure_bind, if_neg ‹_›]

/-- Only what follows a true value matters. -/
theorem whileTrue_congr (h : ∀ value : Value, value.isTruthy → next value = later value) :
    first.whileTrue next = first.whileTrue later := by
  unfold whileTrue
  congr 1
  funext value
  split
  · exact h value ‹_›
  · rfl

theorem Extends.untilTrue (h : Extends small large) (k : Extends first second) :
    Extends (small.untilTrue first) (large.untilTrue second) := by
  refine h.bind fun value => ?_
  split
  · exact .refl _
  · exact k

theorem Extends.whileTrue (h : Extends small large)
    (k : ∀ value, Extends (next value) (later value)) :
    Extends (small.whileTrue next) (large.whileTrue later) := by
  refine h.bind fun value => ?_
  split
  · exact k value
  · exact .refl _

end Evaluation

/-! ## Operands in groups -/

namespace Eval

variable (recur : Nat → Node → Evaluation Value) (frame : Nat)

theorem firstTrue_cons (node : Node) (rest : List Node) :
    firstTrue recur frame (node :: rest) =
      (recur frame node).untilTrue (firstTrue recur frame rest) := rfl

theorem allTrue_cons (last : Value) (node : Node) (rest : List Node) :
    allTrue recur frame last (node :: rest) =
      (recur frame node).whileTrue fun value => allTrue recur frame value rest := rfl

/-- Zero, which `or` gives if no operand is true, is not true. -/
theorem isTruthy_zero : (Value.number 0).isTruthy = false := by
  decide +kernel

/-- One, which `and` gives if it has no operand, is true. -/
theorem isTruthy_one : (Value.number 1).isTruthy = true := by
  decide +kernel

theorem firstTrue_append (front back : List Node) :
    firstTrue recur frame (front ++ back) =
      (firstTrue recur frame front).untilTrue (firstTrue recur frame back) := by
  induction front with
  | nil => simp [firstTrue, untilTrue, isTruthy_zero]
  | cons node rest ih =>
    rw [List.cons_append, firstTrue_cons, ih, firstTrue_cons, untilTrue_assoc]

/-- The second group begins with the last value of the first. -/
theorem allTrue_append {last : Value} (hlast : last.isTruthy) (front back : List Node) :
    allTrue recur frame last (front ++ back) =
      (allTrue recur frame last front).whileTrue fun value =>
        allTrue recur frame value back := by
  induction front generalizing last with
  | nil => simp [allTrue, whileTrue, hlast]
  | cons node rest ih =>
    rw [List.cons_append, allTrue_cons, allTrue_cons, whileTrue_assoc]
    exact whileTrue_congr fun value hvalue => ih hvalue

/-- The value before the first operand is of no account. -/
theorem allTrue_eq_allTrue {nodes : List Node} (hne : nodes ≠ []) (last other : Value) :
    allTrue recur frame last nodes = allTrue recur frame other nodes := by
  obtain ⟨node, rest, rfl⟩ := List.exists_cons_of_ne_nil hne
  rfl

end Eval

/-! ## Nested forms -/

/-- `(keyword operand …)`, with the spans of the keyword and of the form. -/
def Node.form (keyword : Keyword) (word : Span) (operands : List Node) (span : Span) : Node :=
  .list (.symbol keyword.word word :: operands) span

section Forms

open Eval

variable {depth frame : Nat} {xs ys zs : List Node} {word span innerWord innerSpan : Span}

theorem eval_form (keyword : Keyword) (operands : List Node) :
    eval (depth + 1) frame (.form keyword word operands span) =
      specialForm (eval depth) keyword frame operands span :=
  eval_succ_of_keyword (Keyword.ofName?_word keyword)

theorem eval_or_flat :
    eval (depth + 1) frame (.form .or word (xs ++ (ys ++ zs)) span) =
      (firstTrue (eval depth) frame xs).untilTrue
        ((firstTrue (eval depth) frame ys).untilTrue (firstTrue (eval depth) frame zs)) := by
  rw [eval_form, specialForm, firstTrue_append, firstTrue_append]

/-- The operands of the inner form are evaluated one level deeper than the others. -/
theorem eval_or_nested :
    eval (depth + 2) frame
        (.form .or word (xs ++ .form .or innerWord ys innerSpan :: zs) span) =
      (firstTrue (eval (depth + 1)) frame xs).untilTrue
        ((firstTrue (eval depth) frame ys).untilTrue (firstTrue (eval (depth + 1)) frame zs)) := by
  rw [eval_form, specialForm, firstTrue_append, firstTrue_cons, eval_form, specialForm]

/-- The second group has operands or another one behind it, so it does not matter that it begins
with one. -/
theorem eval_and_flat (hne : ys ≠ [] ∨ zs ≠ []) :
    eval (depth + 1) frame (.form .and word (xs ++ (ys ++ zs)) span) =
      (allTrue (eval depth) frame (.number 1) xs).whileTrue fun _ =>
        (allTrue (eval depth) frame (.number 1) ys).whileTrue fun value =>
          allTrue (eval depth) frame value zs := by
  have hback : ys ++ zs ≠ [] := by
    intro hnil
    obtain ⟨hys, hzs⟩ := List.append_eq_nil_iff.mp hnil
    exact hne.elim (fun h => h hys) fun h => h hzs
  rw [eval_form, specialForm, allTrue_append (eval depth) frame isTruthy_one]
  refine whileTrue_congr fun value _ => ?_
  rw [allTrue_eq_allTrue (eval depth) frame hback value (.number 1),
    allTrue_append (eval depth) frame isTruthy_one]

theorem eval_and_nested :
    eval (depth + 2) frame
        (.form .and word (xs ++ .form .and innerWord ys innerSpan :: zs) span) =
      (allTrue (eval (depth + 1)) frame (.number 1) xs).whileTrue fun _ =>
        (allTrue (eval depth) frame (.number 1) ys).whileTrue fun value =>
          allTrue (eval (depth + 1)) frame value zs := by
  rw [eval_form, specialForm, allTrue_append (eval (depth + 1)) frame isTruthy_one]
  refine whileTrue_congr fun value _ => ?_
  rw [allTrue_cons, eval_form, specialForm]

/-- Two nodes have the same answers if each depth that suffices for one of them suffices for the
other, up to one level. -/
theorem exists_eval_iff_of_extends {node other : Node}
    (h : ∀ depth, Extends (eval (depth + 2) frame node) (eval (depth + 2) frame other))
    (k : ∀ depth, Extends (eval (depth + 1) frame other) (eval (depth + 2) frame node))
    (store : Store) (answer : Except EvalError Value × Store) :
    (∃ depth, eval depth frame node store = some answer) ↔
      ∃ depth, eval depth frame other store = some answer := by
  constructor
  · rintro ⟨depth, heval⟩
    have hdeeper := eval_extends (Nat.le_add_right depth 2) frame node store answer heval
    exact ⟨depth + 2, h depth store answer hdeeper⟩
  · rintro ⟨depth, heval⟩
    have hdeeper := eval_extends (Nat.le_add_right depth 1) frame other store answer heval
    exact ⟨depth + 2, k depth store answer hdeeper⟩

/-- The operands of an inner `or` can stand in its place in the outer one, and those of an inner
`and` too, unless neither it nor what stands behind it has an operand.  From any store the nested
form and the flat one come to the same value or error and the same store, or neither comes to an
end. -/
theorem exists_eval_nested_iff (frame : Nat) (store : Store) (xs ys zs : List Node)
    (word span innerWord innerSpan flatWord flatSpan : Span)
    (answer : Except EvalError Value × Store) :
    ((∃ depth, eval depth frame
        (.form .or word (xs ++ .form .or innerWord ys innerSpan :: zs) span) store =
          some answer) ↔
      ∃ depth, eval depth frame
        (.form .or flatWord (xs ++ (ys ++ zs)) flatSpan) store = some answer) ∧
    (ys ≠ [] ∨ zs ≠ [] →
      ((∃ depth, eval depth frame
          (.form .and word (xs ++ .form .and innerWord ys innerSpan :: zs) span) store =
            some answer) ↔
        ∃ depth, eval depth frame
          (.form .and flatWord (xs ++ (ys ++ zs)) flatSpan) store = some answer)) := by
  have hdeeper := eval_extends_succ
  constructor
  · refine exists_eval_iff_of_extends (fun depth => ?_) (fun depth => ?_) store answer
    · rw [eval_or_nested, eval_or_flat]
      exact (Extends.refl _).untilTrue
        ((firstTrue_extends (hdeeper depth) frame ys).untilTrue (.refl _))
    · rw [eval_or_nested, eval_or_flat]
      exact (firstTrue_extends (hdeeper depth) frame xs).untilTrue
        ((Extends.refl _).untilTrue (firstTrue_extends (hdeeper depth) frame zs))
  · intro hne
    refine exists_eval_iff_of_extends (fun depth => ?_) (fun depth => ?_) store answer
    · rw [eval_and_nested, eval_and_flat hne]
      exact (Extends.refl _).whileTrue fun _ =>
        (allTrue_extends (hdeeper depth) frame _ ys).whileTrue fun _ => .refl _
    · rw [eval_and_nested, eval_and_flat hne]
      exact (allTrue_extends (hdeeper depth) frame _ xs).whileTrue fun _ =>
        (Extends.refl _).whileTrue fun value => allTrue_extends (hdeeper depth) frame value zs

/-- `(define a value)`. -/
def defineA (value : Float) : Node :=
  .form .define default [.symbol "a" default, .number value default] default

/-- Of `(and (define a nan) (and (define a -0) b) b)` the first operand is true and the second is
not, so the inner form and the outer one stop there, and `b` is never looked up. -/
theorem eval_nested_past_nan :
    ([defineA (-0), .symbol "b" default] ≠ [] ∨ [Node.symbol "b" default] ≠ []) ∧
      (∃ depth, eval depth 0 (.form .and default ([defineA (0 / 0)] ++
          .form .and default [defineA (-0), .symbol "b" default] default ::
            [.symbol "b" default]) default) Store.empty.addRoot =
        some (.ok (.number (-0)), Store.empty.addRoot.set 0 "a" (.number (-0)))) ∧
      ∃ depth, eval depth 0 (.form .and default ([defineA (0 / 0)] ++
          ([defineA (-0), .symbol "b" default] ++ [.symbol "b" default])) default)
            Store.empty.addRoot =
        some (.ok (.number (-0)), Store.empty.addRoot.set 0 "a" (.number (-0))) := by
  have hne : [defineA (-0), .symbol "b" default] ≠ [] ∨ [Node.symbol "b" default] ≠ [] :=
    .inl (List.cons_ne_nil _ _)
  have hflat : ∃ depth, eval depth 0 (.form .and default ([defineA (0 / 0)] ++
      ([defineA (-0), .symbol "b" default] ++ [.symbol "b" default])) default)
        Store.empty.addRoot =
      some (.ok (.number (-0)), Store.empty.addRoot.set 0 "a" (.number (-0))) :=
    ⟨3, by with_unfolding_all rfl⟩
  obtain ⟨-, hand⟩ := exists_eval_nested_iff 0 Store.empty.addRoot [defineA (0 / 0)]
    [defineA (-0), .symbol "b" default] [.symbol "b" default]
    default default default default default default
    (.ok (.number (-0)), Store.empty.addRoot.set 0 "a" (.number (-0)))
  exact ⟨hne, (hand hne).mpr hflat, hflat⟩

/-- An inner `and` without operands, with none behind it, gives one and not what stands before. -/
example : eval 2 0 (.form .and default [.number 7 default, .form .and default [] default] default)
      Store.empty = some (.ok (.number 1), Store.empty) ∧
    eval 2 0 (.form .and default [.number 7 default] default) Store.empty =
      some (.ok (.number 7), Store.empty) :=
  ⟨by with_unfolding_all rfl, by with_unfolding_all rfl⟩

end Forms

end TinyLisp
