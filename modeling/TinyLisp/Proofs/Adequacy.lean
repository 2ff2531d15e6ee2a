import TinyLisp.Eval.Depth
import TinyLisp.Proofs.Builtins

/-!
# The evaluator and the rules agree

The evaluator answers at some depth exactly if the rules derive that answer.

* `Eval.Sound` says of an evaluator of parts that the rules derive its answers, and
  `step_derives` carries this from the parts of a node to the node.  `eval_sound` is the
  induction on the depth.
* `Eval.Begins` says which evaluation the rule for a node begins with.  There the rule fails,
  ends, or goes on with another task, at a depth that `Eval.Depth` makes common to both.
* `Derives.exists_eval` is the induction on a derivation.
* `exists_eval_eq_some_iff_derives` puts the two together.

Both inductions go through stores in the middle of an evaluation, so both need
`Derives.wellFormed`: only in a well-formed store do the walks along a scope agree with
`Store.Resolves`.
-/

namespace TinyLisp

open Evaluation

namespace Eval

/-! ## Shapes -/

theorem binding_eq_ok {operands : List Node} {name : String} {place : Span} {node : Node}
    (h : binding operands = .ok (name, place, node)) :
    operands = [.symbol name place, node] := by
  unfold binding at h
  split at h
  · cases h
    rfl
  · cases h
  · cases h

/-- What `binding` refuses, `define` and `set!` refuse. -/
theorem misshapen_of_binding {keyword : Keyword} {operands : List Node} {complaint : Complaint}
    (hbinds : keyword = .define ∨ keyword = .set) (h : binding operands = .error complaint)
    (span : Span) : Misshapen keyword operands span complaint span := by
  unfold binding at h
  split at h
  · cases h
  · rename_i target value hname
    cases h
    refine .name hbinds ?_
    cases target with
    | symbol name place => exact absurd rfl (hname name place)
    | number | list => rfl
  · rename_i hcount
    cases h
    refine .binding hbinds fun hlength => ?_
    match operands, hlength with
    | [first, second], _ => exact hcount first second rfl

theorem parameters_eq_ok_iff {nodes : List Node} {names : List String} :
    parameters nodes = .ok names ↔ nodes.map Node.name? = names.map some := by
  induction nodes generalizing names with
  | nil => cases names <;> simp [parameters]
  | cons node rest ih =>
    cases node with
    | number | list => cases names <;> simp [parameters, Node.name?]
    | symbol name place =>
      simp only [parameters, List.map_cons, Node.name?]
      cases names with
      | nil => cases parameters rest <;> simp [Except.map]
      | cons head tail =>
        rw [List.map_cons, List.cons.injEq, Option.some.injEq, ← ih]
        cases parameters rest <;> simp [Except.map]

/-- The parameter at fault is the first that is no symbol. -/
theorem exists_of_parameters_eq_error {nodes : List Node} {complaint : Complaint} {place : Span}
    (h : parameters nodes = .error (complaint, place)) :
    ∃ before bad later, nodes = before ++ bad :: later ∧ (∀ node ∈ before, node.name? ≠ none) ∧
      bad.name? = none ∧ complaint = .badParameter bad.render ∧ place = bad.span := by
  induction nodes with
  | nil => simp [parameters] at h
  | cons node rest ih =>
    cases node with
    | symbol name mark =>
      simp only [parameters] at h
      cases hrest : parameters rest with
      | ok names => simp [hrest, Except.map] at h
      | error fault =>
        rw [hrest] at h
        cases h
        obtain ⟨before, bad, later, rfl, hbefore, hbad⟩ := ih hrest
        refine ⟨.symbol name mark :: before, bad, later, rfl, fun node hmem => ?_, hbad⟩
        rcases List.mem_cons.mp hmem with rfl | hmem
        · simp [Node.name?]
        · exact hbefore node hmem
    | number | list =>
      cases h
      exact ⟨[], _, rest, rfl, by simp, rfl, rfl, rfl⟩

theorem parameters_eq_error {before later : List Node} {bad : Node}
    (hbefore : ∀ node ∈ before, node.name? ≠ none) (hbad : bad.name? = none) :
    parameters (before ++ bad :: later) = .error (.badParameter bad.render, bad.span) := by
  induction before with
  | nil =>
    cases bad with
    | symbol => simp [Node.name?] at hbad
    | number | list => rfl
  | cons node rest ih =>
    have hrest := ih fun other hmem => hbefore other (List.mem_cons_of_mem _ hmem)
    cases node with
    | symbol => simp [parameters, hrest, Except.map]
    | number | list => exact absurd rfl (hbefore _ List.mem_cons_self)

/-! ## From answers to derivations -/

/-- The rules derive every answer of an evaluator of nodes. -/
def Sound (recur : Nat → Node → Evaluation Value) : Prop :=
  ∀ {frame node store result after}, store.WellFormed → frame < store.frames.size →
    recur frame node store = some (result, after) →
    Derives store (.node frame node) result after

section Soundness

variable {recur : Nat → Node → Evaluation Value} {store after : Store} {frame : Nat}
  {head : Node} {operands : List Node} {span : Span} {result : Except EvalError Value}

theorem define_derives (hrecur : Sound recur) (hstore : store.WellFormed)
    (hframe : frame < store.frames.size) (hkey : keyword? head = some .define)
    (h : define recur frame operands span store = some (result, after)) :
    Derives store (.node frame (.list (head :: operands) span)) result after := by
  unfold define at h
  cases hbinding : binding operands with
  | error complaint =>
    simp only [hbinding] at h
    cases h
    exact .misshapen hkey (misshapen_of_binding (.inl rfl) hbinding span)
  | ok parts =>
    obtain ⟨name, place, node⟩ := parts
    simp only [hbinding] at h
    obtain rfl := binding_eq_ok hbinding
    obtain ⟨error, hnode, rfl⟩ | ⟨value, between, hnode, hrest⟩ := bind_eq_some_iff.mp h
    · exact .defineFails hkey (hrecur hstore hframe hnode)
    · cases hrest
      exact .define hkey (hrecur hstore hframe hnode)

theorem assign_derives (hrecur : Sound recur) (hstore : store.WellFormed)
    (hframe : frame < store.frames.size) (hkey : keyword? head = some .set)
    (h : assign recur frame operands span store = some (result, after)) :
    Derives store (.node frame (.list (head :: operands) span)) result after := by
  unfold assign at h
  cases hbinding : binding operands with
  | error complaint =>
    simp only [hbinding] at h
    cases h
    exact .misshapen hkey (misshapen_of_binding (.inr rfl) hbinding span)
  | ok parts =>
    obtain ⟨name, place, node⟩ := parts
    simp only [hbinding, bind_apply, get_apply] at h
    obtain rfl := binding_eq_ok hbinding
    cases hfind : store.find? frame name with
    | none =>
      simp only [hfind] at h
      cases h
      exact .assignUnbound hkey (hstore.find?_eq_none_iff.mp hfind)
    | some owner =>
      have howner := hstore.find?_eq_some_iff.mp hfind
      simp only [hfind] at h
      obtain ⟨error, hnode, rfl⟩ | ⟨value, between, hnode, hrest⟩ := bind_eq_some_iff.mp h
      · exact .assignFails hkey howner (hrecur hstore hframe hnode)
      · cases hrest
        exact .assign hkey howner (hrecur hstore hframe hnode)

theorem choose_derives (hrecur : Sound recur) (hstore : store.WellFormed)
    (hframe : frame < store.frames.size) (hkey : keyword? head = some .if)
    (h : choose recur frame operands span store = some (result, after)) :
    Derives store (.node frame (.list (head :: operands) span)) result after := by
  unfold choose at h
  split at h
  · rename_i condition first second
    obtain ⟨error, hcondition, rfl⟩ | ⟨value, between, hcondition, hbranch⟩ :=
      bind_eq_some_iff.mp h
    · exact .conditionFails hkey (hrecur hstore hframe hcondition)
    · have hvalue := hrecur hstore hframe hcondition
      have hbetween := (hvalue.wellFormed hstore hframe).1
      have hlt := Nat.lt_of_lt_of_le hframe hvalue.size_le
      cases value with
      | procedure p => exact .alternate hkey hvalue rfl (hrecur hbetween hlt hbranch)
      | number x =>
        by_cases hone : (x == 1) = true
        · simp only [hone, if_true] at hbranch
          exact .consequent hkey hvalue hone (hrecur hbetween hlt hbranch)
        · simp only [hone] at hbranch
          exact .alternate hkey hvalue (by simpa [Value.isOne] using hone)
            (hrecur hbetween hlt hbranch)
  · rename_i hcount
    cases h
    refine .misshapen hkey (.parts fun hlength => ?_)
    match operands, hlength with
    | [condition, first, second], _ => exact hcount condition first second rfl

theorem firstTrue_derives (hrecur : Sound recur) (hstore : store.WellFormed)
    (hframe : frame < store.frames.size) (hkey : keyword? head = some .or)
    (h : firstTrue recur frame operands store = some (result, after)) :
    Derives store (.node frame (.list (head :: operands) span)) result after := by
  induction operands generalizing store with
  | nil =>
    cases h
    exact .orNone hkey
  | cons operand rest ih =>
    obtain ⟨error, hoperand, rfl⟩ | ⟨value, between, hoperand, hrest⟩ := bind_eq_some_iff.mp h
    · exact .orFails hkey (hrecur hstore hframe hoperand)
    · have hvalue := hrecur hstore hframe hoperand
      by_cases htrue : value.IsTrue
      · rw [if_pos (Value.isTruthy_iff.mpr htrue)] at hrest
        cases hrest
        exact .orTrue hkey hvalue htrue
      · rw [if_neg (mt Value.isTruthy_iff.mp htrue)] at hrest
        exact .orFalse hkey hvalue htrue (ih (hvalue.wellFormed hstore hframe).1
          (Nat.lt_of_lt_of_le hframe hvalue.size_le) hrest)

theorem allTrue_derives (hrecur : Sound recur) (hstore : store.WellFormed)
    (hframe : frame < store.frames.size) (hkey : keyword? head = some .and) (last : Value)
    {operand : Node}
    (h : allTrue recur frame last (operand :: operands) store = some (result, after)) :
    Derives store (.node frame (.list (head :: operand :: operands) span)) result after := by
  induction operands generalizing store operand last with
  | nil =>
    obtain ⟨error, hoperand, rfl⟩ | ⟨value, between, hoperand, hrest⟩ := bind_eq_some_iff.mp h
    · exact .andLast hkey (hrecur hstore hframe hoperand)
    · have hvalue := hrecur hstore hframe hoperand
      cases htruth : value.isTruthy with
      | true | false =>
        simp only [htruth, if_true, allTrue] at hrest
        cases hrest
        exact .andLast hkey hvalue
  | cons next rest ih =>
    obtain ⟨error, hoperand, rfl⟩ | ⟨value, between, hoperand, hrest⟩ := bind_eq_some_iff.mp h
    · exact .andFails hkey (hrecur hstore hframe hoperand)
    · have hvalue := hrecur hstore hframe hoperand
      by_cases htrue : value.IsTrue
      · rw [if_pos (Value.isTruthy_iff.mpr htrue)] at hrest
        exact .andTrue hkey hvalue htrue (ih (hvalue.wellFormed hstore hframe).1
          (Nat.lt_of_lt_of_le hframe hvalue.size_le) value hrest)
      · rw [if_neg (mt Value.isTruthy_iff.mp htrue)] at hrest
        cases hrest
        exact .andFalse hkey hvalue htrue

theorem lambda_derives (hkey : keyword? head = some .lambda)
    (h : lambda frame operands span store = some (result, after)) :
    Derives store (.node frame (.list (head :: operands) span)) result after := by
  unfold lambda at h
  split at h
  · rename_i nodes place body
    cases hparameters : parameters nodes with
    | error fault =>
      obtain ⟨complaint, mark⟩ := fault
      simp only [hparameters] at h
      cases h
      obtain ⟨before, bad, later, rfl, hbefore, hbad, rfl, rfl⟩ :=
        exists_of_parameters_eq_error hparameters
      exact .misshapen hkey (.parameter hbefore hbad)
    | ok names =>
      simp only [hparameters] at h
      cases h
      exact .lambda hkey (parameters_eq_ok_iff.mp hparameters)
  · rename_i hshape
    cases h
    exact .misshapen hkey (.parameters hshape)

theorem apply_derives (hrecur : Sound recur) (hstore : store.WellFormed) {procedure : Procedure}
    {arguments : List Value} (hprocedure : procedure.Within store.frames.size)
    (harguments : ∀ value ∈ arguments, value.Within store.frames.size)
    (h : apply recur procedure arguments span store = some (result, after)) :
    Derives store (.call procedure arguments span) result after := by
  cases procedure with
  | builtin b =>
    have hoperate (hcount : b.arity.Admits arguments.length)
        (h : ofExcept span (b.operate arguments) store = some (result, after)) :
        Derives store (.call (.builtin b) arguments span) result after := by
      cases hresult : b.operate arguments with
      | ok value =>
        rw [hresult] at h
        cases h
        exact .builtinValue hcount hresult
      | error fault =>
        rw [hresult] at h
        cases h
        exact .builtinFault hcount hresult
    simp only [apply, Builtin.call] at h
    cases harity : b.arity with
    | variadic =>
      simp only [harity] at h
      exact hoperate (by rw [harity]; trivial) h
    | exactly expected =>
      simp only [harity] at h
      split at h
      · rename_i hcount
        exact hoperate (by rw [harity]; exact hcount) h
      · rename_i hcount
        cases h
        exact .builtinArity harity hcount
  | closure c =>
    simp only [apply, callClosure] at h
    split at h
    · rename_i hcount
      refine .closure hcount (hrecur (hstore.enter hprocedure harguments) ?_ h)
      simp [Store.nextFrame]
    · rename_i hcount
      cases h
      exact .closureArity hcount

/-- The evaluation of the rest of the operands, followed by the call. -/
theorem operands_derives (hrecur : Sound recur) (hstore : store.WellFormed)
    (hframe : frame < store.frames.size) {procedure : Procedure} {values : List Value}
    (hprocedure : procedure.Within store.frames.size)
    (hvalues : ∀ value ∈ values, value.Within store.frames.size)
    (h : (each recur frame operands >>= fun more => apply recur procedure (values ++ more) span)
      store = some (result, after)) :
    Derives store (.operands frame procedure values operands span) result after := by
  induction operands generalizing store values with
  | nil =>
    rw [each, bind_apply, pure_apply] at h
    simp only [List.append_nil] at h
    exact .operandsEnd (apply_derives hrecur hstore hprocedure hvalues h)
  | cons operand rest ih =>
    rw [each, bind_assoc] at h
    obtain ⟨error, hoperand, rfl⟩ | ⟨value, between, hoperand, hrest⟩ := bind_eq_some_iff.mp h
    · exact .operandFails (hrecur hstore hframe hoperand)
    · have hvalue := hrecur hstore hframe hoperand
      obtain ⟨hbetween, hwithin⟩ := hvalue.wellFormed hstore hframe
      have hle := hvalue.size_le
      refine .operand hvalue (ih hbetween (Nat.lt_of_lt_of_le hframe hle) (hprocedure.mono hle)
        (Value.within_append_singleton hvalues hle (hwithin _ rfl)) ?_)
      simpa [bind_assoc, List.append_assoc] using hrest

theorem application_derives (hrecur : Sound recur) (hstore : store.WellFormed)
    (hframe : frame < store.frames.size) (hkey : keyword? head = none)
    (h : application recur frame head operands span store = some (result, after)) :
    Derives store (.node frame (.list (head :: operands) span)) result after := by
  obtain ⟨error, hhead, rfl⟩ | ⟨value, between, hhead, hrest⟩ := bind_eq_some_iff.mp h
  · exact .headFails hkey (hrecur hstore hframe hhead)
  · have hvalue := hrecur hstore hframe hhead
    cases value with
    | number x =>
      cases hrest
      exact .notCallable hkey hvalue
    | procedure p =>
      obtain ⟨hbetween, hwithin⟩ := hvalue.wellFormed hstore hframe
      exact .application hkey hvalue (operands_derives hrecur hbetween
        (Nat.lt_of_lt_of_le hframe hvalue.size_le) (hwithin _ rfl) (by simp) hrest)

theorem specialForm_derives (hrecur : Sound recur) (hstore : store.WellFormed)
    (hframe : frame < store.frames.size) {keyword : Keyword}
    (hkey : keyword? head = some keyword)
    (h : specialForm recur keyword frame operands span store = some (result, after)) :
    Derives store (.node frame (.list (head :: operands) span)) result after := by
  cases keyword with
  | define => exact define_derives hrecur hstore hframe hkey h
  | set => exact assign_derives hrecur hstore hframe hkey h
  | «if» => exact choose_derives hrecur hstore hframe hkey h
  | or => exact firstTrue_derives hrecur hstore hframe hkey h
  | lambda => exact lambda_derives hkey h
  | and =>
    cases operands with
    | nil =>
      cases h
      exact .andNone hkey
    | cons operand rest => exact allTrue_derives hrecur hstore hframe hkey (.number 1) h

/-- If the rules derive the answers for the parts of a node, then those for the node. -/
theorem step_derives (hrecur : Sound recur) : Sound (step recur) := by
  intro frame node store result after hstore hframe h
  unfold step at h
  split at h
  · cases h
    exact .number
  · rename_i name span
    rw [symbolValue_apply] at h
    cases hlookup : store.lookup? frame name with
    | none =>
      simp only [hlookup] at h
      cases h
      exact .unbound (hstore.lookup?_eq_none_iff.mp hlookup)
    | some value =>
      simp only [hlookup] at h
      cases h
      obtain ⟨owner, howner, hvalue⟩ := hstore.lookup?_eq_some_iff.mp hlookup
      exact .symbol howner hvalue
  · cases h
    exact .empty
  · rename_i head operands span
    cases hkey : keyword? head with
    | some keyword =>
      simp only [hkey] at h
      exact specialForm_derives hrecur hstore hframe hkey h
    | none =>
      simp only [hkey] at h
      exact application_derives hrecur hstore hframe hkey h

end Soundness

end Eval

theorem eval_sound (depth : Nat) : Eval.Sound (eval depth) := by
  induction depth with
  | zero =>
    intro frame node store result after _ _ h
    simp [eval, outOfDepth] at h
  | succ depth ih => exact Eval.step_derives ih

/-! ## From derivations to answers -/

/-- What the evaluator does with a task. -/
def Task.eval (depth : Nat) : Task → Evaluation Value
  | .node frame n => TinyLisp.eval depth frame n
  | .operands frame procedure values rest span =>
    Eval.each (TinyLisp.eval depth) frame rest >>= fun more =>
      TinyLisp.apply depth procedure (values ++ more) span
  | .call procedure arguments span => TinyLisp.apply depth procedure arguments span

theorem Task.eval_extends {small large : Nat} (h : small ≤ large) (task : Task) :
    Extends (task.eval small) (task.eval large) := by
  cases task with
  | node frame node => exact TinyLisp.eval_extends h frame node
  | operands frame procedure values rest span =>
    exact (Eval.each_extends (TinyLisp.eval_extends h) frame rest).bind fun _ =>
      Eval.apply_extends (TinyLisp.eval_extends h) _ _ _
  | call procedure arguments span => exact Eval.apply_extends (TinyLisp.eval_extends h) _ _ _

/-- Two tasks that are answered are answered at a common depth. -/
theorem Task.exists_common_depth {first second : Task} {store between : Store}
    {a b : Except EvalError Value × Store} (ha : ∃ depth, first.eval depth store = some a)
    (hb : ∃ depth, second.eval depth between = some b) :
    ∃ depth, first.eval depth store = some a ∧ second.eval depth between = some b := by
  obtain ⟨m, ha⟩ := ha
  obtain ⟨n, hb⟩ := hb
  exact ⟨max m n, first.eval_extends (Nat.le_max_left m n) store a ha,
    second.eval_extends (Nat.le_max_right m n) between b hb⟩

namespace Eval

variable {depth frame : Nat} {head : Node} {operands : List Node} {span : Span} {store : Store}

theorem eval_succ_of_keyword {keyword : Keyword} (hkey : keyword? head = some keyword) :
    eval (depth + 1) frame (.list (head :: operands) span) =
      specialForm (eval depth) keyword frame operands span := by
  simp [eval, step, hkey]

/-- A special form is answered if its rule is, at some depth for the operands. -/
theorem exists_eval_of_specialForm {keyword : Keyword} {answer : Except EvalError Value × Store}
    (hkey : keyword? head = some keyword)
    (h : ∃ depth, specialForm (eval depth) keyword frame operands span store = some answer) :
    ∃ depth, (Task.node frame (.list (head :: operands) span)).eval depth store = some answer := by
  obtain ⟨depth, h⟩ := h
  refine ⟨depth + 1, ?_⟩
  rw [Task.eval, eval_succ_of_keyword hkey]
  exact h

/-- A special form that is answered is answered by its rule, which may look deeper. -/
theorem specialForm_of_eval {keyword : Keyword} (hkey : keyword? head = some keyword)
    {answer : Except EvalError Value × Store}
    (h : eval depth frame (.list (head :: operands) span) store = some answer) :
    specialForm (eval depth) keyword frame operands span store = some answer := by
  cases depth with
  | zero => simp [eval, outOfDepth] at h
  | succ depth =>
    rw [eval_succ_of_keyword hkey] at h
    exact specialForm_extends (eval_extends_succ depth) keyword frame operands span store answer h

theorem specialForm_of_misshapen {recur : Nat → Node → Evaluation Value} {keyword : Keyword}
    {complaint : Complaint} {place : Span}
    (h : Misshapen keyword operands span complaint place) (frame : Nat) (store : Store) :
    specialForm recur keyword frame operands span store =
      some (.error ⟨.malformed keyword complaint, place⟩, store) := by
  cases h with
  | name hbinds htarget =>
    rename_i target value
    have hbinding : binding [target, value] = .error .badName := by
      cases target with
      | symbol => simp [Node.name?] at htarget
      | number | list => rfl
    rcases hbinds with rfl | rfl
    · simp [specialForm, define, hbinding, fail_apply]
    · simp [specialForm, assign, hbinding, fail_apply]
  | binding hbinds hcount =>
    have hbinding : binding operands = .error .wantsNameAndValue := by
      match operands, hcount with
      | [], _ => rfl
      | [first], _ => cases first <;> rfl
      | first :: second :: third :: rest, _ => cases first <;> rfl
    rcases hbinds with rfl | rfl
    · simp [specialForm, define, hbinding, fail_apply]
    · simp [specialForm, assign, hbinding, fail_apply]
  | parts hcount =>
    match operands, hcount with
    | [], _ | [_], _ | [_, _], _ | _ :: _ :: _ :: _ :: _, _ => rfl
  | parameters hshape =>
    simp only [specialForm, lambda]
    rfl
  | parameter hbefore hbad =>
    simp [specialForm, lambda, parameters_eq_error hbefore hbad, fail_apply]

/-- The rule for a node begins with the value of `first` and goes on with `next`. -/
def Begins (frame : Nat) (store : Store) (node first : Node)
    (next : (Nat → Node → Evaluation Value) → Value → Evaluation Value) : Prop :=
  ∀ recur, step recur frame node store = (recur frame first >>= next recur) store

namespace Begins

variable {node first : Node} {next : (Nat → Node → Evaluation Value) → Value → Evaluation Value}
  {between after : Store} {value : Value} {answer : Except EvalError Value × Store}

/-- If the first evaluation fails, then so does the node. -/
theorem fails (h : Begins frame store node first next) {error : EvalError}
    (hfirst : ∃ depth, (Task.node frame first).eval depth store = some (.error error, after)) :
    ∃ depth, (Task.node frame node).eval depth store = some (.error error, after) := by
  obtain ⟨depth, hfirst⟩ := hfirst
  rw [Task.eval] at hfirst
  refine ⟨depth + 1, ?_⟩
  rw [Task.eval, eval, h, bind_apply, hfirst]

/-- After the first evaluation, what the rule goes on with may be the work of another task. -/
theorem goesOn (h : Begins frame store node first next) {task : Task}
    (hfirst : ∃ depth, (Task.node frame first).eval depth store = some (.ok value, between))
    (htask : ∃ depth, task.eval depth between = some answer)
    (hnext : ∀ depth, task.eval depth between = some answer →
      next (eval depth) value between = some answer) :
    ∃ depth, (Task.node frame node).eval depth store = some answer := by
  obtain ⟨depth, hfirst, htask⟩ := Task.exists_common_depth hfirst htask
  rw [Task.eval] at hfirst
  refine ⟨depth + 1, ?_⟩
  rw [Task.eval, eval, h, bind_apply, hfirst]
  exact hnext depth htask

/-- After the first evaluation, the rule may be at its end. -/
theorem ends (h : Begins frame store node first next)
    (hfirst : ∃ depth, (Task.node frame first).eval depth store = some (.ok value, between))
    (hnext : ∀ recur, next recur value between = some answer) :
    ∃ depth, (Task.node frame node).eval depth store = some answer := by
  obtain ⟨depth, hfirst⟩ := hfirst
  rw [Task.eval] at hfirst
  refine ⟨depth + 1, ?_⟩
  rw [Task.eval, eval, h, bind_apply, hfirst]
  exact hnext (eval depth)

end Begins

theorem begins_define (hkey : keyword? head = some .define) {name : String} {place : Span}
    {operand : Node} :
    Begins frame store (.list [head, .symbol name place, operand] span) operand
      fun _ value => do
        modify fun store => store.set frame name value
        return value := by
  intro recur
  simp only [step, hkey, specialForm, define, binding]

/-- The owner of the name is known before the rule begins. -/
theorem begins_assign (hkey : keyword? head = some .set) {name : String} {place : Span}
    {operand : Node} {owner : Nat} (howner : store.find? frame name = some owner) :
    Begins frame store (.list [head, .symbol name place, operand] span) operand
      fun _ value => do
        modify fun store => store.set owner name value
        return value := by
  intro recur
  simp only [step, hkey, specialForm, assign, binding]
  rw [bind_apply, get_apply]
  simp only [howner]

theorem begins_choose (hkey : keyword? head = some .if) {condition consequent alternate : Node} :
    Begins frame store (.list [head, condition, consequent, alternate] span) condition
      fun recur value => recur frame (if value.isOne then consequent else alternate) := by
  intro recur
  simp only [step, hkey, specialForm, choose]
  refine congrFun (congrArg (recur frame condition >>= ·) (funext fun value => ?_)) store
  cases value with
  | procedure => rfl
  | number x => exact (apply_ite (recur frame) ((x == 1) = true) consequent alternate).symm

theorem begins_firstTrue (hkey : keyword? head = some .or) {operand : Node} {rest : List Node} :
    Begins frame store (.list (head :: operand :: rest) span) operand
      fun recur value => if value.isTruthy then return value else firstTrue recur frame rest := by
  intro recur
  simp only [step, hkey, specialForm, firstTrue]

theorem begins_allTrue (hkey : keyword? head = some .and) {operand : Node} {rest : List Node} :
    Begins frame store (.list (head :: operand :: rest) span) operand
      fun recur value =>
        if value.isTruthy then allTrue recur frame value rest else return value := by
  intro recur
  simp only [step, hkey, specialForm, allTrue]

theorem begins_application (hkey : keyword? head = none) :
    Begins frame store (.list (head :: operands) span) head fun recur value =>
      match value with
      | .number x => fail (.notCallable x) head.span
      | .procedure procedure =>
        each recur frame operands >>= fun arguments => apply recur procedure arguments span := by
  intro recur
  simp only [step, hkey]
  rfl

end Eval

namespace Derives

variable {store after : Store} {task : Task} {result : Except EvalError Value}

open Eval

/-- The evaluator answers a task that the rules derive an answer for. -/
theorem exists_eval (h : Derives store task result after) (hstore : store.WellFormed)
    (htask : task.Within store.frames.size) :
    ∃ depth, task.eval depth store = some (result, after) := by
  induction h with
  | number | empty => exact ⟨1, rfl⟩
  | symbol howner hvalue =>
    refine ⟨1, ?_⟩
    have hlookup := hstore.lookup?_eq_some_iff.mpr ⟨_, howner, hvalue⟩
    simp only [Task.eval, TinyLisp.eval, step, symbolValue_apply, hlookup]
  | unbound hfree =>
    refine ⟨1, ?_⟩
    have hlookup := hstore.lookup?_eq_none_iff.mpr hfree
    simp only [Task.eval, TinyLisp.eval, step, symbolValue_apply, hlookup]
  | misshapen hkey hshape =>
    exact exists_eval_of_specialForm hkey ⟨0, specialForm_of_misshapen hshape _ _⟩
  | define hkey _ ih => exact (begins_define hkey).ends (ih hstore htask) fun _ => rfl
  | defineFails hkey _ ih => exact (begins_define hkey).fails (ih hstore htask)
  | assign hkey howner _ ih =>
    have hfind := hstore.find?_eq_some_iff.mpr howner
    exact (begins_assign hkey hfind).ends (ih hstore htask) fun _ => rfl
  | assignFails hkey howner _ ih =>
    have hfind := hstore.find?_eq_some_iff.mpr howner
    exact (begins_assign hkey hfind).fails (ih hstore htask)
  | assignUnbound hkey hfree =>
    refine exists_eval_of_specialForm hkey ⟨0, ?_⟩
    simp only [specialForm, Eval.assign, binding, bind_apply, get_apply,
      hstore.find?_eq_none_iff.mpr hfree]
    rfl
  | consequent hkey hcondition hone _ ih ih' =>
    have hbetween := (hcondition.wellFormed hstore htask).1
    have hlt := Nat.lt_of_lt_of_le htask hcondition.size_le
    refine (begins_choose hkey).goesOn (ih hstore htask) (ih' hbetween hlt) fun depth hbranch => ?_
    rw [hone, if_pos rfl]
    exact hbranch
  | alternate hkey hcondition hone _ ih ih' =>
    have hbetween := (hcondition.wellFormed hstore htask).1
    have hlt := Nat.lt_of_lt_of_le htask hcondition.size_le
    refine (begins_choose hkey).goesOn (ih hstore htask) (ih' hbetween hlt) fun depth hbranch => ?_
    rw [hone, if_neg Bool.false_ne_true]
    exact hbranch
  | conditionFails hkey _ ih => exact (begins_choose hkey).fails (ih hstore htask)
  | orNone hkey | andNone hkey => exact exists_eval_of_specialForm hkey ⟨0, rfl⟩
  | orTrue hkey _ htrue ih =>
    refine (begins_firstTrue hkey).ends (ih hstore htask) fun _ => ?_
    rw [if_pos (Value.isTruthy_iff.mpr htrue)]
    rfl
  | orFalse hkey hoperand hfalse _ ih ih' =>
    have hbetween := (hoperand.wellFormed hstore htask).1
    have hlt := Nat.lt_of_lt_of_le htask hoperand.size_le
    refine (begins_firstTrue hkey).goesOn (ih hstore htask) (ih' hbetween hlt) fun depth hrest => ?_
    rw [if_neg (mt Value.isTruthy_iff.mp hfalse)]
    exact specialForm_of_eval hkey hrest
  | orFails hkey _ ih => exact (begins_firstTrue hkey).fails (ih hstore htask)
  | @andLast _ _ _ _ _ result _ hkey _ ih =>
    cases result with
    | error error => exact (begins_allTrue hkey).fails (ih hstore htask)
    | ok value =>
      refine (begins_allTrue hkey).ends (ih hstore htask) fun _ => ?_
      split <;> rfl
  | andFalse hkey _ hfalse ih =>
    refine (begins_allTrue hkey).ends (ih hstore htask) fun _ => ?_
    rw [if_neg (mt Value.isTruthy_iff.mp hfalse)]
    rfl
  | andTrue hkey hoperand htrue _ ih ih' =>
    have hbetween := (hoperand.wellFormed hstore htask).1
    have hlt := Nat.lt_of_lt_of_le htask hoperand.size_le
    refine (begins_allTrue hkey).goesOn (ih hstore htask) (ih' hbetween hlt) fun depth hrest => ?_
    rw [if_pos (Value.isTruthy_iff.mpr htrue)]
    exact specialForm_of_eval hkey hrest
  | andFails hkey _ ih => exact (begins_allTrue hkey).fails (ih hstore htask)
  | lambda hkey hnames =>
    refine exists_eval_of_specialForm hkey ⟨0, ?_⟩
    simp only [specialForm, Eval.lambda, parameters_eq_ok_iff.mpr hnames]
    rfl
  | application hkey hhead _ ih ih' =>
    obtain ⟨hbetween, hprocedure⟩ := hhead.wellFormed hstore htask
    have hlt := Nat.lt_of_lt_of_le htask hhead.size_le
    have hoperands := ih' hbetween ⟨hlt, hprocedure _ rfl, by simp⟩
    exact (begins_application hkey).goesOn (ih hstore htask) hoperands fun _ hrest => hrest
  | notCallable hkey _ ih => exact (begins_application hkey).ends (ih hstore htask) fun _ => rfl
  | headFails hkey _ ih => exact (begins_application hkey).fails (ih hstore htask)
  | operand hoperand _ ih ih' =>
    obtain ⟨hbetween, hvalue⟩ := hoperand.wellFormed hstore htask.1
    have hle := hoperand.size_le
    obtain ⟨depth, hfirst, hrest⟩ := Task.exists_common_depth (ih hstore htask.1)
      (ih' hbetween ⟨Nat.lt_of_lt_of_le htask.1 hle, htask.2.1.mono hle,
        Value.within_append_singleton htask.2.2 hle (hvalue _ rfl)⟩)
    rw [Task.eval] at hfirst
    refine ⟨depth, ?_⟩
    rw [Task.eval, each, bind_assoc, bind_apply, hfirst]
    simpa [Task.eval, bind_assoc, List.append_assoc] using hrest
  | operandFails _ ih =>
    obtain ⟨depth, hfirst⟩ := ih hstore htask.1
    rw [Task.eval] at hfirst
    refine ⟨depth, ?_⟩
    rw [Task.eval, each, bind_assoc, bind_apply, hfirst]
  | operandsEnd _ ih =>
    obtain ⟨depth, hcall⟩ := ih hstore htask.2
    refine ⟨depth, ?_⟩
    simp only [Task.eval, each, bind_apply, pure_apply, List.append_nil]
    exact hcall
  | builtinValue hcount hoperate | builtinFault hcount hoperate =>
    refine ⟨0, ?_⟩
    rw [Task.eval, TinyLisp.apply, Eval.apply, Builtin.call_of_admits hcount, hoperate]
    rfl
  | builtinArity harity hcount =>
    refine ⟨0, ?_⟩
    simp only [Task.eval, TinyLisp.apply, Eval.apply, Builtin.call, harity, if_neg hcount]
    rfl
  | closure hcount _ ih =>
    obtain ⟨depth, hbody⟩ := ih (hstore.enter htask.1 htask.2)
      (by simp [Task.Within, Store.nextFrame])
    refine ⟨depth, ?_⟩
    simp only [Task.eval, TinyLisp.apply, Eval.apply, callClosure, if_pos hcount]
    exact hbody
  | closureArity hcount =>
    refine ⟨0, ?_⟩
    simp only [Task.eval, TinyLisp.apply, Eval.apply, callClosure, if_neg hcount]
    rfl

end Derives

/-! ## Agreement -/

/-- The evaluation of a node in a frame of a well-formed store comes to an end exactly if
the rules derive that end, with its value or error and the store that it leaves behind. -/
theorem exists_eval_eq_some_iff_derives {store after : Store} {frame : Nat} {node : Node}
    {result : Except EvalError Value} (hstore : store.WellFormed)
    (hframe : frame < store.frames.size) :
    (∃ depth, eval depth frame node store = some (result, after)) ↔
      Derives store (.node frame node) result after := by
  constructor
  · rintro ⟨depth, h⟩
    exact eval_sound depth hstore hframe h
  · intro h
    exact h.exists_eval hstore hframe

/-- The body of `((lambda (x) (x)) 7)` finds a number in the frame of the call. -/
theorem derives_error_of_closure_body :
    Store.empty.addGlobal.WellFormed ∧ 0 < Store.empty.addGlobal.frames.size ∧
      Derives Store.empty.addGlobal
        (.node 0 (.list [.list [.symbol "lambda" ⟨2, 8⟩, .list [.symbol "x" ⟨10, 11⟩] ⟨9, 12⟩,
          .list [.symbol "x" ⟨14, 15⟩] ⟨13, 16⟩] ⟨1, 17⟩, .number 7 ⟨18, 19⟩] ⟨0, 20⟩))
        (.error ⟨.notCallable 7, ⟨14, 15⟩⟩)
        ⟨Store.empty.addGlobal.frames.push ⟨some 0, [("x", .number 7)]⟩, 1⟩ := by
  have hstore := Store.WellFormed.empty.addGlobal
  refine ⟨hstore, by decide, (exists_eval_eq_some_iff_derives hstore (by decide)).mp ⟨4, ?_⟩⟩
  with_unfolding_all rfl

end TinyLisp
