import TinyLisp.Eval

/-!
# Depth does not matter

A depth that suffices for an answer can be raised without a change to that answer, so an
evaluation has at most one answer over all depths.

* `Evaluation.Extends` says that one evaluation answers wherever another does, and alike.
* `step_extends` carries this from the parts of a node to the node.
* `eval_extends` and `eval_eq_of_eval` apply it to the evaluator.
-/

namespace TinyLisp

open Evaluation

/-! ## Extension -/

/-- Wherever `first` gives an answer, `second` gives the same one. -/
def Evaluation.Extends {α : Type} (first second : Evaluation α) : Prop :=
  ∀ store answer, first store = some answer → second store = some answer

theorem Evaluation.Extends.refl {α : Type} (evaluation : Evaluation α) :
    Extends evaluation evaluation :=
  fun _ _ h => h

theorem Evaluation.Extends.trans {α : Type} {first second third : Evaluation α}
    (h : Extends first second) (k : Extends second third) : Extends first third :=
  fun store answer hanswer => k store answer (h store answer hanswer)

theorem Evaluation.Extends.bind {α β : Type} {first second : Evaluation α}
    {next later : α → Evaluation β} (h : Extends first second)
    (k : ∀ a, Extends (next a) (later a)) : Extends (first >>= next) (second >>= later) := by
  intro store answer hanswer
  rw [bind_apply] at hanswer ⊢
  cases hfirst : first store with
  | none => simp [hfirst] at hanswer
  | some result =>
    rw [h store result hfirst]
    rw [hfirst] at hanswer
    rcases result with ⟨_ | a, after⟩
    · exact hanswer
    · exact k a _ _ hanswer

/-! ## Rules -/

namespace Eval

variable {small large : Nat → Node → Evaluation Value}

theorem each_extends (h : ∀ frame node, Extends (small frame node) (large frame node))
    (frame : Nat) (nodes : List Node) :
    Extends (each small frame nodes) (each large frame nodes) := by
  induction nodes with
  | nil => exact .refl _
  | cons node rest ih => exact (h frame node).bind fun _ => ih.bind fun _ => .refl _

theorem firstTrue_extends (h : ∀ frame node, Extends (small frame node) (large frame node))
    (frame : Nat) (nodes : List Node) :
    Extends (firstTrue small frame nodes) (firstTrue large frame nodes) := by
  induction nodes with
  | nil => exact .refl _
  | cons node rest ih =>
    refine (h frame node).bind fun value => ?_
    split
    · exact .refl _
    · exact ih

theorem allTrue_extends (h : ∀ frame node, Extends (small frame node) (large frame node))
    (frame : Nat) (last : Value) (nodes : List Node) :
    Extends (allTrue small frame last nodes) (allTrue large frame last nodes) := by
  induction nodes generalizing last with
  | nil => exact .refl _
  | cons node rest ih =>
    refine (h frame node).bind fun value => ?_
    split
    · exact ih value
    · exact .refl _

theorem define_extends (h : ∀ frame node, Extends (small frame node) (large frame node))
    (frame : Nat) (operands : List Node) (span : Span) :
    Extends (define small frame operands span) (define large frame operands span) := by
  unfold define
  split
  · exact .refl _
  · exact (h _ _).bind fun _ => .refl _

theorem assign_extends (h : ∀ frame node, Extends (small frame node) (large frame node))
    (frame : Nat) (operands : List Node) (span : Span) :
    Extends (assign small frame operands span) (assign large frame operands span) := by
  unfold assign
  split
  · exact .refl _
  · refine (Extends.refl _).bind fun _ => ?_
    split
    · exact .refl _
    · exact (h _ _).bind fun _ => .refl _

theorem choose_extends (h : ∀ frame node, Extends (small frame node) (large frame node))
    (frame : Nat) (operands : List Node) (span : Span) :
    Extends (choose small frame operands span) (choose large frame operands span) := by
  unfold choose
  split
  · refine (h _ _).bind fun value => ?_
    split
    · split <;> exact h _ _
    · exact h _ _
  · exact .refl _

theorem specialForm_extends (h : ∀ frame node, Extends (small frame node) (large frame node))
    (keyword : Keyword) (frame : Nat) (operands : List Node) (span : Span) :
    Extends (specialForm small keyword frame operands span)
      (specialForm large keyword frame operands span) := by
  cases keyword with
  | define => exact define_extends h frame operands span
  | set => exact assign_extends h frame operands span
  | «if» => exact choose_extends h frame operands span
  | or => exact firstTrue_extends h frame operands
  | and => exact allTrue_extends h frame _ operands
  | lambda => exact .refl _

theorem apply_extends (h : ∀ frame node, Extends (small frame node) (large frame node))
    (procedure : Procedure) (arguments : List Value) (span : Span) :
    Extends (apply small procedure arguments span) (apply large procedure arguments span) := by
  cases procedure with
  | builtin builtin => exact .refl _
  | closure closure =>
    simp only [apply, callClosure]
    split
    · exact (Extends.refl _).bind fun _ => h _ _
    · exact .refl _

/-- If the parts of a node are evaluated alike, then so is the node. -/
theorem step_extends (h : ∀ frame node, Extends (small frame node) (large frame node))
    (frame : Nat) (node : Node) : Extends (step small frame node) (step large frame node) := by
  unfold step
  split
  · exact .refl _
  · exact .refl _
  · exact .refl _
  · split
    · exact specialForm_extends h _ _ _ _
    · unfold application
      refine (h _ _).bind fun value => ?_
      split
      · exact .refl _
      · exact (each_extends h _ _).bind fun _ => apply_extends h _ _ _

end Eval

/-! ## The evaluator -/

theorem eval_extends_succ (depth : Nat) (frame : Nat) (node : Node) :
    Extends (eval depth frame node) (eval (depth + 1) frame node) := by
  induction depth generalizing frame node with
  | zero => exact fun _ _ h => by simp [eval, outOfDepth] at h
  | succ depth ih => exact Eval.step_extends ih frame node

/-- A greater depth gives the same answers, and perhaps more of them. -/
theorem eval_extends {small large : Nat} (h : small ≤ large) (frame : Nat) (node : Node) :
    Extends (eval small frame node) (eval large frame node) := by
  induction h with
  | refl => exact .refl _
  | step _ ih => exact ih.trans (eval_extends_succ _ frame node)

/-- Two depths that both suffice give the same answer. -/
theorem eval_eq_of_eval {first second : Nat} {frame : Nat} {node : Node} {store : Store}
    {a b : Except EvalError Value × Store} (ha : eval first frame node store = some a)
    (hb : eval second frame node store = some b) : a = b := by
  have ha' := eval_extends (Nat.le_max_left first second) frame node store a ha
  have hb' := eval_extends (Nat.le_max_right first second) frame node store b hb
  exact Option.some.inj (ha'.symm.trans hb')

end TinyLisp
