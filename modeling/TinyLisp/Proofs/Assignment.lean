import TinyLisp.Proofs.Growth

/-!
# What definitions and assignments bind

`(define name value)` and `(set! name value)` evaluate a node and then bind a name.  A definition
binds it in its own frame.  An assignment binds it in the frame where the name is found before the
node is evaluated, whatever the evaluation does: it may define the name in a nearer frame, or
assign it through a closure.

* `Store.Rebinds`: one binding of one frame is all that differs between two stores.
* `bindAfter`: what a form gives that binds a name behind an evaluation.
* `eval_definition` and `eval_assignment`: the forms, for each answer of their node.
* `Store.WellFormed.rebinds_owner`: no assignment adds a name to a frame, since a store that grows
  keeps the name where it was found.
-/

namespace TinyLisp

open Evaluation

/-! ## One binding -/

namespace Store

/-- The second store is the first, but for the value that the frame binds the name to. -/
structure Rebinds (store : Store) (frame : Nat) (name : String) (value : Value)
    (after : Store) : Prop where
  size : after.frames.size = store.frames.size
  closures : after.closures = store.closures
  outer? : ∀ other, after.outer? other = store.outer? other
  get? : ∀ other wanted, after.get? other wanted =
    if other = frame ∧ wanted = name then some value else store.get? other wanted

/-- The frames of the second store bind the names that they bind in the first, and no others. -/
def SameNames (store after : Store) : Prop :=
  ∀ frame name, (after.get? frame name).isSome = (store.get? frame name).isSome

variable {store : Store} {frame : Nat} {name : String}

theorem rebinds_set (hframe : frame < store.frames.size) (name : String) (value : Value) :
    store.Rebinds frame name value (store.set frame name value) where
  size := size_set ..
  closures := rfl
  outer? _ := outer?_set ..
  get? other wanted := by
    rw [get?_set]
    by_cases hother : other = frame
    · simp [hother, hframe, eq_comm]
    · simp [hother, Ne.symm hother]

/-- To give another value to a name adds no name. -/
theorem sameNames_set (hbound : (store.get? frame name).isSome) (value : Value) :
    store.SameNames (store.set frame name value) := by
  intro other wanted
  rw [get?_set]
  split
  · rename_i hsame
    obtain ⟨rfl, rfl, -⟩ := hsame
    exact hbound.symm
  · rfl

end Store

/-! ## The two forms -/

/-- `(define name value)` or `(set! name value)`, with the spans of the form and of its first two
words. -/
def Node.binding (keyword : Keyword) (name : String) (value : Node) (word place span : Span) :
    Node :=
  .list [.symbol keyword.word word, .symbol name place, value] span

/-- What a form gives that evaluates a node, with this answer, and binds its value.  If there is no
value, the answer is that of the node. -/
def bindAfter (frame : Nat) (name : String) :
    Option (Except EvalError Value × Store) → Option (Except EvalError Value × Store)
  | some (.ok value, after) => some (.ok value, after.set frame name value)
  | answer => answer

section Forms

variable {store : Store} {depth frame owner : Nat} {name : String} {node : Node}
  {word place span : Span}

theorem eval_binding (keyword : Keyword) :
    eval (depth + 1) frame (.binding keyword name node word place span) =
      Eval.specialForm (eval depth) keyword frame [.symbol name place, node] span :=
  Eval.eval_succ_of_keyword (Keyword.ofName?_word keyword)

theorem bind_set_apply (evaluation : Evaluation Value) :
    (do
      let value ← evaluation
      modify fun store => store.set owner name value
      return value : Evaluation Value) store = bindAfter owner name (evaluation store) := by
  rw [bind_apply]
  rcases evaluation store with _ | ⟨_ | value, after⟩ <;> rfl

/-- A definition binds the name in its own frame. -/
theorem eval_definition :
    eval (depth + 1) frame (.binding .define name node word place span) store =
      bindAfter frame name (eval depth frame node store) := by
  rw [eval_binding]
  exact bind_set_apply (eval depth frame node)

/-- An assignment binds the name where it is found before the node is evaluated. -/
theorem eval_assignment (howner : store.find? frame name = some owner) :
    eval (depth + 1) frame (.binding .set name node word place span) store =
      bindAfter owner name (eval depth frame node store) := by
  rw [eval_binding, ← bind_set_apply]
  simp only [Eval.specialForm, Eval.assign, Eval.binding]
  rw [bind_apply, get_apply]
  simp only [howner]

/-- An assignment of a name that is not found fails, and the node is not evaluated: the depth is
that of the form alone. -/
theorem eval_assignment_of_find?_eq_none (hfree : store.find? frame name = none) :
    eval (depth + 1) frame (.binding .set name node word place span) store =
      some (.error ⟨.unboundName name, place⟩, store) := by
  rw [eval_binding]
  simp only [Eval.specialForm, Eval.assign, Eval.binding]
  rw [bind_apply, get_apply]
  simp only [hfree]
  rfl

end Forms

namespace Store

variable {store after : Store} {depth frame owner : Nat} {name : String} {node : Node}

/-- Where a name was found before an evaluation it is bound behind it. -/
theorem WellFormed.isSome_get?_of_eval (hstore : store.WellFormed)
    (hframe : frame < store.frames.size) (howner : store.find? frame name = some owner)
    {result : Except EvalError Value} (heval : eval depth frame node store = some (result, after)) :
    (after.get? owner name).isSome := by
  have hderives := eval_sound depth hstore hframe heval
  exact (hderives.becomes hstore hframe).grows.bound owner name (isSome_get?_of_find? howner)

/-- An assignment changes one binding, in the frame where the name is found beforehand.  If the name
is not visible, the form fails at the name and nothing is evaluated.  Otherwise the form gives what
its node gives, with the value bound in that frame if there is a value.  That frame binds the name
before the evaluation of the node and behind it, so that no frame gets a new name.  A definition
changes one binding of its own frame. -/
theorem WellFormed.rebinds_owner (hstore : store.WellFormed) (hframe : frame < store.frames.size)
    (name : String) (node : Node) (word place span : Span) :
    (name ∉ store.visible frame → ∀ depth,
      eval (depth + 1) frame (.binding .set name node word place span) store =
        some (.error ⟨.unboundName name, place⟩, store)) ∧
    (name ∈ store.visible frame → ∃ owner, store.find? frame name = some owner ∧
      (store.get? owner name).isSome ∧ ∀ depth,
        eval (depth + 1) frame (.binding .set name node word place span) store =
          bindAfter owner name (eval depth frame node store) ∧
        ∀ value after, eval depth frame node store = some (.ok value, after) →
          (after.get? owner name).isSome ∧
          after.Rebinds owner name value (after.set owner name value) ∧
          after.SameNames (after.set owner name value)) ∧
    ∀ depth,
      eval (depth + 1) frame (.binding .define name node word place span) store =
        bindAfter frame name (eval depth frame node store) ∧
      ∀ value after, eval depth frame node store = some (.ok value, after) →
        after.Rebinds frame name value (after.set frame name value) := by
  refine ⟨fun hhidden depth => ?_, fun hvisible => ?_, fun depth => ⟨eval_definition, ?_⟩⟩
  · refine eval_assignment_of_find?_eq_none (Option.eq_none_iff_forall_ne_some.mpr ?_)
    intro owner howner
    exact hhidden (hstore.mem_visible_iff_find?.mpr ⟨owner, howner⟩)
  · obtain ⟨owner, howner⟩ := hstore.mem_visible_iff_find?.mp hvisible
    refine ⟨owner, howner, isSome_get?_of_find? howner, fun depth => ⟨eval_assignment howner, ?_⟩⟩
    intro value after heval
    have hbound := hstore.isSome_get?_of_eval hframe howner heval
    obtain ⟨old, hold⟩ := Option.isSome_iff_exists.mp hbound
    exact ⟨hbound, rebinds_set (lt_size_of_get? hold) name value, sameNames_set hbound value⟩
  · intro value after heval
    have hderives := eval_sound depth hstore hframe heval
    exact rebinds_set (Nat.lt_of_lt_of_le hframe hderives.size_le) name value

/-- `(if (define f 1) 7 0)`, which defines `f` in its own frame and has another value. -/
def shadowsF : Node :=
  .list [.symbol "if" ⟨9, 11⟩, .binding .define "f" (.number 1 ⟨22, 23⟩) ⟨13, 19⟩ ⟨20, 21⟩ ⟨12, 24⟩,
    .number 7 ⟨25, 26⟩, .number 0 ⟨27, 28⟩] ⟨8, 29⟩

/-- `(set! f (if (define f 1) 7 0))` in the inner frame defines `f` there, and then assigns the `f`
of the outer frame.  There is no `g` to assign. -/
theorem rebinds_behind_shadow :
    knotted.WellFormed ∧ 1 < knotted.frames.size ∧ "g" ∉ knotted.visible 1 ∧
      eval 1 1 (.binding .set "g" shadowsF ⟨1, 5⟩ ⟨6, 7⟩ ⟨0, 30⟩) knotted =
        some (.error ⟨.unboundName "g", ⟨6, 7⟩⟩, knotted) ∧
      "f" ∈ knotted.visible 1 ∧
      eval 3 1 shadowsF knotted = some (.ok (.number 7), knotted.set 1 "f" (.number 1)) ∧
      eval 4 1 (.binding .set "f" shadowsF ⟨1, 5⟩ ⟨6, 7⟩ ⟨0, 30⟩) knotted =
        some (.ok (.number 7), (knotted.set 1 "f" (.number 1)).set 0 "f" (.number 7)) ∧
      (knotted.set 1 "f" (.number 1)).SameNames
        ((knotted.set 1 "f" (.number 1)).set 0 "f" (.number 7)) := by
  have hstore := (run_knotted.becomes .empty).wellFormed .empty
  have hframe : 1 < knotted.frames.size := by decide
  have hfind : knotted.find? 1 "f" = some 0 := by with_unfolding_all rfl
  have hfree : knotted.find? 1 "g" = none := by with_unfolding_all rfl
  have heval : eval 3 1 shadowsF knotted =
      some (.ok (.number 7), knotted.set 1 "f" (.number 1)) := by
    with_unfolding_all rfl
  have hhidden : "g" ∉ knotted.visible 1 := by
    rw [hstore.mem_visible_iff_find?, hfree]
    simp
  have hvisible := hstore.mem_visible_iff_find?.mpr ⟨0, hfind⟩
  obtain ⟨hfails, -, -⟩ := hstore.rebinds_owner hframe "g" shadowsF ⟨1, 5⟩ ⟨6, 7⟩ ⟨0, 30⟩
  obtain ⟨-, hassigns, -⟩ := hstore.rebinds_owner hframe "f" shadowsF ⟨1, 5⟩ ⟨6, 7⟩ ⟨0, 30⟩
  obtain ⟨owner, howner, -, hforms⟩ := hassigns hvisible
  obtain rfl : owner = 0 := Option.some.inj (howner.symm.trans hfind)
  obtain ⟨hform, hchange⟩ := hforms 3
  rw [heval] at hform
  exact ⟨hstore, hframe, hhidden, hfails hhidden 0, hvisible, heval, hform,
    (hchange _ _ heval).2.2⟩

end Store
end TinyLisp
