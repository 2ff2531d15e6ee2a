import TinyLisp.Proofs.Growth
import TinyLisp.Proofs.Provenance

/-!
# Where global names come from

A frame that is there already gets a new name in one way only: a `define` form is evaluated in
that very frame.  A call binds its parameters in a frame of its own, and the body of a closure is
evaluated there, so what a body defines stays there.  An assignment finds a name that is bound.

* `Node.Defines`: a `define` form of the name stands in the node, outside of every `lambda` form.
* `Derives.binds`: the names that one evaluation adds, by induction over the rules.  A task that
  is the call of a procedure adds none.
* `evalForms_binds`: the names that the forms of a text add.
* `Session.Reached.defines_globals`: whole texts, assignments, calls and parameters.
-/

namespace TinyLisp

open Evaluation

/-! ## Defined names -/

/-- A `define` form of the name stands in the node, and no `lambda` form around it. -/
inductive Node.Defines (name : String) : Node → Prop where
  | form {head value : Node} {place span : Span} (hkey : Eval.keyword? head = some .define) :
      Defines name (.list [head, .symbol name place, value] span)
  | child {child : Node} {children : List Node} {span : Span}
      (hlambda : children.head?.bind Eval.keyword? ≠ some .lambda) (hmem : child ∈ children)
      (h : Defines name child) : Defines name (.list children span)

namespace Node

variable {name : String} {head operand : Node} {operands : List Node} {span : Span}
  {keyword : Keyword}

/-- A keyword defines nothing. -/
theorem not_defines_of_keyword (hkey : Eval.keyword? head = some keyword) :
    ¬ head.Defines name := by
  intro h
  cases h <;> cases hkey

end Node

/-! ## The names that an evaluation adds -/

/-- The task is evaluated in the frame, and in what is evaluated there the name is defined. -/
def Task.Defines (frame : Nat) (name : String) : Task → Prop
  | .node own n => own = frame ∧ n.Defines name
  | .operands own _ _ rest _ => own = frame ∧ ∃ operand ∈ rest, operand.Defines name
  | .call _ _ _ => False

namespace Task.Defines

variable {own frame : Nat} {name : String} {head operand : Node} {operands : List Node}
  {span : Span} {keyword : Keyword}

/-- What an operand of a special form defines, the form defines. -/
theorem of_operand (h : Defines frame name (.node own operand)) (hmem : operand ∈ operands)
    (hkey : Eval.keyword? head = some keyword) (hlambda : keyword ≠ .lambda) :
    Defines frame name (.node own (.list (head :: operands) span)) :=
  ⟨h.1, .child (by simpa [hkey] using hlambda) (List.mem_cons_of_mem _ hmem) h.2⟩

/-- What the `or` or the `and` of the later operands defines, that of all operands defines. -/
theorem cons_operand (h : Defines frame name (.node own (.list (head :: operands) span)))
    (hkey : Eval.keyword? head = some keyword) (hdefine : keyword ≠ .define) :
    Defines frame name (.node own (.list (head :: operand :: operands) span)) := by
  obtain ⟨hown, hdefines⟩ := h
  cases hdefines with
  | form hother => exact absurd (Option.some.inj (hkey.symm.trans hother)) hdefine
  | child hlambda hmem hchild =>
    refine ⟨hown, .child hlambda ?_ hchild⟩
    rcases List.mem_cons.mp hmem with rfl | hrest
    · exact absurd hchild (Node.not_defines_of_keyword hkey)
    · exact List.mem_cons_of_mem _ (List.mem_cons_of_mem _ hrest)

/-- What the head of an application defines, the application defines. -/
theorem of_head (h : Defines frame name (.node own head)) (hkey : Eval.keyword? head = none) :
    Defines frame name (.node own (.list (head :: operands) span)) :=
  ⟨h.1, .child (by simp [hkey]) List.mem_cons_self h.2⟩

/-- What the operands of an application define, the application defines. -/
theorem of_operands {procedure : Procedure} {values : List Value}
    (h : Defines frame name (.operands own procedure values operands span))
    (hkey : Eval.keyword? head = none) :
    Defines frame name (.node own (.list (head :: operands) span)) := by
  obtain ⟨hown, operand, hmem, hdefines⟩ := h
  exact ⟨hown, .child (by simp [hkey]) (List.mem_cons_of_mem _ hmem) hdefines⟩

end Task.Defines

/-- A name that a frame binds behind an evaluation, and that was there before it, was bound before
as well, or the task defines it in this frame.  The induction is over the rules.  In the rule for
the call of a closure the body is evaluated in a new frame, which is none of those at hand. -/
theorem Derives.binds {store after : Store} {task : Task} {result : Except EvalError Value}
    (h : Derives store task result after) {frame : Nat} {name : String}
    (hlt : frame < store.frames.size) (hbound : (after.get? frame name).isSome) :
    (store.get? frame name).isSome ∨ task.Defines frame name := by
  induction h with
  | define hkey _ ih =>
    rw [Store.get?_set] at hbound
    split at hbound
    · rename_i hown
      obtain ⟨rfl, rfl, -⟩ := hown
      exact .inr ⟨rfl, .form hkey⟩
    · exact (ih hlt hbound).imp_right fun hnode => hnode.of_operand (by simp) hkey (by decide)
  | assign hkey howner _ ih =>
    rw [Store.get?_set] at hbound
    split at hbound
    · rename_i hown
      obtain ⟨rfl, rfl, -⟩ := hown
      exact .inl howner.isSome
    · exact (ih hlt hbound).imp_right fun hnode => hnode.of_operand (by simp) hkey (by decide)
  | defineFails hkey _ ih | assignFails hkey _ _ ih | conditionFails hkey _ ih | orTrue hkey _ _ ih
  | orFails hkey _ ih | andLast hkey _ ih | andFalse hkey _ _ ih | andFails hkey _ ih =>
    exact (ih hlt hbound).imp_right fun hnode => hnode.of_operand (by simp) hkey (by decide)
  | consequent hkey hcondition _ _ ih ih' | alternate hkey hcondition _ _ ih ih' =>
    rcases ih' (Nat.lt_of_lt_of_le hlt hcondition.size_le) hbound with hbetween | hbranch
    · exact (ih hlt hbetween).imp_right fun hnode => hnode.of_operand (by simp) hkey (by decide)
    · exact .inr (hbranch.of_operand (by simp) hkey (by decide))
  | orFalse hkey hoperand _ _ ih ih' | andTrue hkey hoperand _ _ ih ih' =>
    rcases ih' (Nat.lt_of_lt_of_le hlt hoperand.size_le) hbound with hbetween | hrest
    · exact (ih hlt hbetween).imp_right fun hnode => hnode.of_operand (by simp) hkey (by decide)
    · exact .inr (hrest.cons_operand hkey (by decide))
  | application hkey hhead _ ih ih' =>
    rcases ih' (Nat.lt_of_lt_of_le hlt hhead.size_le) hbound with hbetween | hoperands
    · exact (ih hlt hbetween).imp_right fun hnode => hnode.of_head hkey
    · exact .inr (hoperands.of_operands hkey)
  | notCallable hkey _ ih | headFails hkey _ ih =>
    exact (ih hlt hbound).imp_right fun hnode => hnode.of_head hkey
  | operand hoperand _ ih ih' =>
    rcases ih' (Nat.lt_of_lt_of_le hlt hoperand.size_le) hbound with hbetween | hrest
    · exact (ih hlt hbetween).imp_right fun ⟨hown, hdefines⟩ =>
        ⟨hown, _, List.mem_cons_self, hdefines⟩
    · obtain ⟨hown, later, hmem, hdefines⟩ := hrest
      exact .inr ⟨hown, later, List.mem_cons_of_mem _ hmem, hdefines⟩
  | operandFails _ ih =>
    exact (ih hlt hbound).imp_right fun ⟨hown, hdefines⟩ =>
      ⟨hown, _, List.mem_cons_self, hdefines⟩
  | operandsEnd _ ih => exact (ih hlt hbound).imp_right False.elim
  | @closure store closure arguments _ _ _ _ _ ih =>
    have hentered : frame < (store.push ⟨some closure.frame,
        Bindings.ofPairs (closure.parameters.zip arguments)⟩).frames.size := by
      rw [Store.size_push]
      exact Nat.lt_succ_of_lt hlt
    rcases ih hentered hbound with hbody | ⟨hown, -⟩
    · rw [Store.get?_push_of_lt hlt] at hbody
      exact .inl hbody
    · exact absurd hown.symm (Nat.ne_of_lt hlt)
  | number | symbol | unbound | empty | misshapen | assignUnbound | orNone | andNone | lambda
  | builtinValue | builtinFault | builtinArity | closureArity => exact .inl hbound

/-- A call adds no name to any frame that is there already. -/
theorem Derives.call_binds_iff {store after : Store} {procedure : Procedure}
    {arguments : List Value} {span : Span} {result : Except EvalError Value}
    (h : Derives store (.call procedure arguments span) result after)
    (hstore : store.WellFormed) (hprocedure : procedure.Within store.frames.size)
    (harguments : ∀ argument ∈ arguments, argument.Within store.frames.size) {frame : Nat}
    (hlt : frame < store.frames.size) (name : String) :
    (after.get? frame name).isSome ↔ (store.get? frame name).isSome :=
  ⟨fun hbound => (h.binds hlt hbound).elim id False.elim,
    (h.becomes hstore ⟨hprocedure, harguments⟩).grows.bound frame name⟩

section Forms

variable {depth frame : Nat} {forms : List Node} {last : Option Value} {store after : Store}
  {result : Except EvalError (Option Value)} {name : String}

/-- The names that forms add to their frame are those that they define. -/
theorem evalForms_binds (hosts : store.Hosts frame)
    (h : evalForms depth frame last forms store = some (result, after))
    (hbound : (after.get? frame name).isSome) :
    (store.get? frame name).isSome ∨ ∃ form ∈ forms, form.Defines name := by
  induction forms generalizing last store with
  | nil =>
    cases h
    exact .inl hbound
  | cons form rest ih =>
    have hmem : form ∈ form :: rest := List.mem_cons_self
    rcases bind_eq_some_iff.mp h with ⟨error, hform, -⟩ | ⟨value, between, hform, hrest⟩
    · have hderives := eval_sound depth hosts.wellFormed hosts.lt_size hform
      exact (hderives.binds hosts.lt_size hbound).imp_right fun hnode => ⟨form, hmem, hnode.2⟩
    · have hderives := eval_sound depth hosts.wellFormed hosts.lt_size hform
      rcases ih (hosts.derives hderives) hrest with hbetween | ⟨later, hlater, hdefines⟩
      · exact (hderives.binds hosts.lt_size hbetween).imp_right fun hnode => ⟨form, hmem, hnode.2⟩
      · exact .inr ⟨later, List.mem_cons_of_mem _ hlater, hdefines⟩

end Forms

/-- What an assignment does to the names of frames, the evaluation of its value does. -/
theorem Eval.set_binds_iff {depth frame : Nat} {head : Node} {operands : List Node} {span : Span}
    {store after : Store} {result : Except EvalError Value} (hosts : store.Hosts frame)
    (hkey : keyword? head = some .set)
    (h : eval depth frame (.list (head :: operands) span) store = some (result, after)) :
    after = store ∨ ∃ name place node answer between, operands = [.symbol name place, node] ∧
      eval depth frame node store = some (answer, between) ∧
      ∀ other wanted, (after.get? other wanted).isSome ↔ (between.get? other wanted).isSome := by
  have hassign : assign (eval depth) frame operands span store = some (result, after) :=
    specialForm_of_eval hkey h
  unfold assign at hassign
  cases hbinding : binding operands with
  | error complaint =>
    simp only [hbinding] at hassign
    cases hassign
    exact .inl rfl
  | ok parts =>
    obtain ⟨name, place, node⟩ := parts
    obtain rfl := binding_eq_ok hbinding
    simp only [hbinding, bind_apply, get_apply] at hassign
    cases hfind : store.find? frame name with
    | none =>
      simp only [hfind] at hassign
      cases hassign
      exact .inl rfl
    | some owner =>
      simp only [hfind] at hassign
      refine .inr ⟨name, place, node, ?_⟩
      rcases bind_eq_some_iff.mp hassign with ⟨error, hnode, -⟩ | ⟨value, between, hnode, hset⟩
      · exact ⟨_, _, rfl, hnode, fun _ _ => Iff.rfl⟩
      · cases hset
        refine ⟨_, _, rfl, hnode, fun other wanted => ?_⟩
        have hderives := eval_sound depth hosts.wellFormed hosts.lt_size hnode
        have hgrows := (hderives.becomes hosts.wellFormed hosts.lt_size).grows
        rw [Store.get?_set]
        split
        · rename_i hown
          obtain ⟨rfl, rfl, -⟩ := hown
          -- The owner bound the name before the value was evaluated, and so it still does.
          have howner := hosts.wellFormed.find?_eq_some_iff.mp hfind
          exact iff_of_true rfl (hgrows.bound _ _ howner.isSome)
        · exact Iff.rfl

namespace Session

variable {texts : List String} {session : Session}

/-- The global frame gets a name from a text only if the text has a `define` form of that name
outside of its `lambda` forms.  This is so whether the text succeeds or fails.  At no moment does
an assignment add a name to the global frame, apart from what its value defines, and neither does
the call of a closure, of whatever text it is: the parameters are bound in a frame that was not
there before. -/
theorem Reached.defines_globals (h : Reached texts session) :
    (∀ depth text result after name, session.eval depth text = some (result, after) →
      session.get? name = none → (after.get? name).isSome →
        ∃ form ∈ forms text, form.Defines name) ∧
    ∀ store, session.store.Becomes store →
      (∀ depth frame head operands span result after, frame < store.frames.size →
        Eval.keyword? head = some .set →
        TinyLisp.eval depth frame (.list (head :: operands) span) store = some (result, after) →
        after = store ∨ ∃ name place node answer between, operands = [.symbol name place, node] ∧
          TinyLisp.eval depth frame node store = some (answer, between) ∧
          ∀ wanted, (after.get? session.root wanted).isSome ↔
            (between.get? session.root wanted).isSome) ∧
      (∀ depth closure arguments span result after, closure.frame < store.frames.size →
        (∀ argument ∈ arguments, argument.Within store.frames.size) →
        apply depth (.closure closure) arguments span store = some (result, after) →
        ∀ name, (after.get? session.root name).isSome ↔ (store.get? session.root name).isSome) ∧
      ∀ outer pairs frame after,
        Eval.enterFrame outer pairs store = some (.ok frame, after) →
        frame ≠ session.root ∧
          ∀ name, after.get? session.root name = store.get? session.root name := by
  refine ⟨fun depth text result after name heval hnew hbound => ?_, fun store hbecomes => ?_⟩
  · obtain ⟨answer, last, hforms, -, rfl⟩ := eval_eq_some_iff.mp heval
    rcases evalForms_binds h.hosts hforms hbound with hold | hdefines
    · rw [show session.store.get? session.root name = none from hnew] at hold
      cases hold
    · exact hdefines
  · have hstore := hbecomes.wellFormed h.hosts.wellFormed
    have hroot := Nat.lt_of_lt_of_le h.hosts.lt_size hbecomes.grows.size_le
    refine ⟨fun depth frame head operands span result after hlt hkey heval => ?_,
      fun depth closure arguments span result after hclosure harguments hcall name => ?_,
      fun outer pairs frame after henter => ?_⟩
    · refine (Eval.set_binds_iff ⟨hstore, hlt⟩ hkey heval).imp_right ?_
      rintro ⟨name, place, node, answer, between, hoperands, hnode, hbound⟩
      exact ⟨name, place, node, answer, between, hoperands, hnode, hbound session.root⟩
    · have hderives : Derives _ (.call (.closure closure) arguments span) result after :=
        Eval.apply_derives (eval_sound depth) hstore hclosure harguments hcall
      exact hderives.call_binds_iff hstore hclosure harguments hroot name
    · cases henter
      exact ⟨Nat.ne_of_gt hroot, fun name => Store.get?_push_of_lt hroot _ name⟩

/-- The closure that `(lambda (x) (define z x))` makes in the text
`((lambda (x) (define z x)) (define y 7))`. -/
def keep : Closure where
  identity := 0
  parameters := ["x"]
  body := .list [.symbol "define" ⟨14, 20⟩, .symbol "z" ⟨21, 22⟩, .symbol "x" ⟨23, 24⟩] ⟨13, 25⟩
  frame := 0

/-- A new session behind that text. -/
def keeping : Session where
  store := ⟨#[⟨none, Store.globalBindings ++ [("y", .number 7)]⟩,
    ⟨some 0, [("x", .number 7), ("z", .number 7)]⟩], 1⟩
  root := 0

/-- The operand of the call defines `y`.  Its body defines `z`, but not in the global frame. -/
theorem defines_beside_lambda :
    Session.new.eval 4 "((lambda (x) (define z x)) (define y 7))" =
        some (.ok (some (.number 7)), keeping) ∧
      (∃ form ∈ forms "((lambda (x) (define z x)) (define y 7))", form.Defines "y") ∧
      ∃ after, apply 2 (.closure keep) [.number 7] ⟨0, 40⟩ Session.new.store =
          some (.ok (.number 7), after) ∧
        ((after.get? 0 "z").isSome ↔ (Session.new.store.get? 0 "z").isSome) := by
  have heval : Session.new.eval 4 "((lambda (x) (define z x)) (define y 7))" =
      some (.ok (some (.number 7)), keeping) :=
    eval_of_read
      (.list [.list [.symbol "lambda" ⟨2, 8⟩, .list [.symbol "x" ⟨10, 11⟩] ⟨9, 12⟩, keep.body]
          ⟨1, 26⟩,
        .list [.symbol "define" ⟨28, 34⟩, .symbol "y" ⟨35, 36⟩, .number 7 ⟨37, 38⟩] ⟨27, 39⟩]
        ⟨0, 40⟩)
      (.ok (.number 7)) (by rfl) (by with_unfolding_all rfl)
  have hcall : apply 2 (.closure keep) [.number 7] ⟨0, 40⟩ Session.new.store =
      some (.ok (.number 7), Session.new.store.push
        ⟨some 0, [("x", .number 7), ("z", .number 7)]⟩) := by
    with_unfolding_all rfl
  obtain ⟨hdefines, hmoments⟩ := Reached.new.defines_globals
  obtain ⟨-, hcalls, -⟩ := hmoments _ .refl
  exact ⟨heval, hdefines 4 _ _ keeping "y" heval rfl rfl, _, hcall,
    hcalls 2 keep _ _ _ _ (by decide) (by simp [Value.Within, Value.ForClosures]) hcall "z"⟩

end Session

end TinyLisp
