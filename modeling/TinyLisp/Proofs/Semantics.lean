import TinyLisp.Eval
import TinyLisp.Proofs.Scope

/-!
# The rules of evaluation

`Derives store task result after` says that a task, begun in `store`, ends with a value or
an error and leaves `after` behind.  It is the least relation that the rules of the language
allow, and no depth occurs in it.

A task is a node in a frame, the operands of an application from some operand on, or the
call of a procedure.  With the last two, every rule has at most one evaluation in front and
one at the end, and an induction over a derivation has one case for each rule.

There are four groups.

* The shapes that the special forms refuse: `Misshapen`.
* What the rules ask of values and counts: `Value.isOne`, `Value.IsTrue` and `Arity.Admits`.
* The rules: `Derives`.
* What every derivation keeps: `Derives.size_le` and `Derives.wellFormed`.
-/

namespace TinyLisp

/-! ## Shapes -/

/-- The name that a node is, if it is a symbol. -/
def Node.name? : Node → Option String
  | .symbol name _ => some name
  | _ => none

/-- The operands of a special form with the given span have a shape that the form refuses.
The complaint is about the node at the last span. -/
inductive Misshapen : Keyword → List Node → Span → Complaint → Span → Prop where
  | name {keyword : Keyword} {target value : Node} {span : Span}
      (hbinds : keyword = .define ∨ keyword = .set) (htarget : target.name? = none) :
      Misshapen keyword [target, value] span .badName span
  | binding {keyword : Keyword} {operands : List Node} {span : Span}
      (hbinds : keyword = .define ∨ keyword = .set) (hcount : operands.length ≠ 2) :
      Misshapen keyword operands span .wantsNameAndValue span
  | parts {operands : List Node} {span : Span} (hcount : operands.length ≠ 3) :
      Misshapen .if operands span .wantsThreeParts span
  | parameters {operands : List Node} {span : Span}
      (hshape : ∀ nodes place body, operands ≠ [.list nodes place, body]) :
      Misshapen .lambda operands span .wantsParametersAndBody span
  | parameter {before later : List Node} {bad body : Node} {place span : Span}
      (hbefore : ∀ node ∈ before, node.name? ≠ none) (hbad : bad.name? = none) :
      Misshapen .lambda [.list (before ++ bad :: later) place, body] span
        (.badParameter bad.render) bad.span

/-! ## Conditions -/

/-- The number one, which alone selects the consequent of an `if`. -/
def Value.isOne : Value → Bool
  | .number x => x == 1
  | .procedure _ => false

/-- What is true to `or` and `and`: every procedure, and every number that does not equal zero. -/
inductive Value.IsTrue : Value → Prop where
  | number {x : Float} (hzero : (x == 0) = false) : IsTrue (.number x)
  | procedure {procedure : Procedure} : IsTrue (.procedure procedure)

/-- The evaluator's test decides what is true. -/
theorem Value.isTruthy_iff {value : Value} : value.isTruthy = true ↔ value.IsTrue := by
  constructor
  · intro h
    cases value with
    | number x =>
      have hzero : (!(x == 0)) = true := h
      rw [Bool.not_eq_true'] at hzero
      exact .number hzero
    | procedure procedure => exact .procedure
  · intro h
    cases h with
    | @number x hzero =>
      show (!(x == 0)) = true
      rw [hzero]
      rfl
    | procedure => rfl

/-- Whether a builtin of this arity takes so many arguments. -/
def Arity.Admits : Arity → Nat → Prop
  | .variadic, _ => True
  | .exactly expected, count => count = expected

/-! ## Rules -/

/-- What there is to evaluate. -/
inductive Task where
  /-- A node in a frame. -/
  | node (frame : Nat) (node : Node)
  /-- The rest of the operands of an application with the given span, where the procedure
  and the values of the operands before them are known. -/
  | operands (frame : Nat) (procedure : Procedure) (values : List Value) (rest : List Node)
      (span : Span)
  /-- The call of a procedure. -/
  | call (procedure : Procedure) (arguments : List Value) (span : Span)

/-- A task, begun in the first store, ends with a value or an error and leaves the last
store behind. -/
inductive Derives : Store → Task → Except EvalError Value → Store → Prop where
  -- Literals, names and the empty list.
  | number {store frame x span} :
      Derives store (.node frame (.number x span)) (.ok (.number x)) store
  | symbol {store frame name span owner value} (howner : store.Resolves frame name owner)
      (hvalue : store.get? owner name = some value) :
      Derives store (.node frame (.symbol name span)) (.ok value) store
  | unbound {store frame name span} (hfree : ∀ owner, ¬store.Resolves frame name owner) :
      Derives store (.node frame (.symbol name span)) (.error ⟨.unboundName name, span⟩) store
  | empty {store frame span} :
      Derives store (.node frame (.list [] span)) (.error ⟨.emptyApplication, span⟩) store
  -- A keyword at the head is looked at before the head is evaluated, and the shape of the
  -- form before any operand is.
  | misshapen {store frame head operands span keyword complaint place}
      (hkey : Eval.keyword? head = some keyword)
      (hshape : Misshapen keyword operands span complaint place) :
      Derives store (.node frame (.list (head :: operands) span))
        (.error ⟨.malformed keyword complaint, place⟩) store
  | define {store frame head name place node span value after}
      (hkey : Eval.keyword? head = some .define)
      (hnode : Derives store (.node frame node) (.ok value) after) :
      Derives store (.node frame (.list [head, .symbol name place, node] span)) (.ok value)
        (after.set frame name value)
  | defineFails {store frame head name place node span error after}
      (hkey : Eval.keyword? head = some .define)
      (hnode : Derives store (.node frame node) (.error error) after) :
      Derives store (.node frame (.list [head, .symbol name place, node] span)) (.error error)
        after
  -- The owner of an assigned name is found before the value is evaluated.
  | assign {store frame head name place node span owner value after}
      (hkey : Eval.keyword? head = some .set) (howner : store.Resolves frame name owner)
      (hnode : Derives store (.node frame node) (.ok value) after) :
      Derives store (.node frame (.list [head, .symbol name place, node] span)) (.ok value)
        (after.set owner name value)
  | assignFails {store frame head name place node span owner error after}
      (hkey : Eval.keyword? head = some .set) (howner : store.Resolves frame name owner)
      (hnode : Derives store (.node frame node) (.error error) after) :
      Derives store (.node frame (.list [head, .symbol name place, node] span)) (.error error)
        after
  | assignUnbound {store frame head name place node span}
      (hkey : Eval.keyword? head = some .set) (hfree : ∀ owner, ¬store.Resolves frame name owner) :
      Derives store (.node frame (.list [head, .symbol name place, node] span))
        (.error ⟨.unboundName name, place⟩) store
  | consequent {store frame head condition first second span value between result after}
      (hkey : Eval.keyword? head = some .if)
      (hcondition : Derives store (.node frame condition) (.ok value) between)
      (hone : value.isOne = true) (hbranch : Derives between (.node frame first) result after) :
      Derives store (.node frame (.list [head, condition, first, second] span)) result after
  | alternate {store frame head condition first second span value between result after}
      (hkey : Eval.keyword? head = some .if)
      (hcondition : Derives store (.node frame condition) (.ok value) between)
      (hone : value.isOne = false) (hbranch : Derives between (.node frame second) result after) :
      Derives store (.node frame (.list [head, condition, first, second] span)) result after
  | conditionFails {store frame head condition first second span error after}
      (hkey : Eval.keyword? head = some .if)
      (hcondition : Derives store (.node frame condition) (.error error) after) :
      Derives store (.node frame (.list [head, condition, first, second] span)) (.error error)
        after
  -- An operand of `or` that is not true leaves the `or` of the others to evaluate.
  | orNone {store frame head span} (hkey : Eval.keyword? head = some .or) :
      Derives store (.node frame (.list [head] span)) (.ok (.number 0)) store
  | orTrue {store frame head operand rest span value after}
      (hkey : Eval.keyword? head = some .or)
      (hoperand : Derives store (.node frame operand) (.ok value) after)
      (htrue : value.IsTrue) :
      Derives store (.node frame (.list (head :: operand :: rest) span)) (.ok value) after
  | orFalse {store frame head operand rest span value between result after}
      (hkey : Eval.keyword? head = some .or)
      (hoperand : Derives store (.node frame operand) (.ok value) between)
      (hfalse : ¬value.IsTrue)
      (hrest : Derives between (.node frame (.list (head :: rest) span)) result after) :
      Derives store (.node frame (.list (head :: operand :: rest) span)) result after
  | orFails {store frame head operand rest span error after}
      (hkey : Eval.keyword? head = some .or)
      (hoperand : Derives store (.node frame operand) (.error error) after) :
      Derives store (.node frame (.list (head :: operand :: rest) span)) (.error error) after
  -- The `and` of one operand is that operand.
  | andNone {store frame head span} (hkey : Eval.keyword? head = some .and) :
      Derives store (.node frame (.list [head] span)) (.ok (.number 1)) store
  | andLast {store frame head operand span result after}
      (hkey : Eval.keyword? head = some .and)
      (hoperand : Derives store (.node frame operand) result after) :
      Derives store (.node frame (.list [head, operand] span)) result after
  | andFalse {store frame head operand next rest span value after}
      (hkey : Eval.keyword? head = some .and)
      (hoperand : Derives store (.node frame operand) (.ok value) after)
      (hfalse : ¬value.IsTrue) :
      Derives store (.node frame (.list (head :: operand :: next :: rest) span)) (.ok value) after
  | andTrue {store frame head operand next rest span value between result after}
      (hkey : Eval.keyword? head = some .and)
      (hoperand : Derives store (.node frame operand) (.ok value) between)
      (htrue : value.IsTrue)
      (hrest : Derives between (.node frame (.list (head :: next :: rest) span)) result after) :
      Derives store (.node frame (.list (head :: operand :: next :: rest) span)) result after
  | andFails {store frame head operand next rest span error after}
      (hkey : Eval.keyword? head = some .and)
      (hoperand : Derives store (.node frame operand) (.error error) after) :
      Derives store (.node frame (.list (head :: operand :: next :: rest) span)) (.error error)
        after
  | lambda {store frame head nodes place body span names}
      (hkey : Eval.keyword? head = some .lambda) (hnames : nodes.map Node.name? = names.map some) :
      Derives store (.node frame (.list [head, .list nodes place, body] span))
        (.ok (.procedure (.closure ⟨store.closures, names, body, frame⟩)))
        { store with closures := store.closures + 1 }
  -- The head of an application has to be a procedure before an operand is evaluated.
  | application {store frame head operands span procedure between result after}
      (hkey : Eval.keyword? head = none)
      (hhead : Derives store (.node frame head) (.ok (.procedure procedure)) between)
      (hoperands : Derives between (.operands frame procedure [] operands span) result after) :
      Derives store (.node frame (.list (head :: operands) span)) result after
  | notCallable {store frame head operands span x after} (hkey : Eval.keyword? head = none)
      (hhead : Derives store (.node frame head) (.ok (.number x)) after) :
      Derives store (.node frame (.list (head :: operands) span))
        (.error ⟨.notCallable x, head.span⟩) after
  | headFails {store frame head operands span error after} (hkey : Eval.keyword? head = none)
      (hhead : Derives store (.node frame head) (.error error) after) :
      Derives store (.node frame (.list (head :: operands) span)) (.error error) after
  | operand {store frame procedure values operand rest span value between result after}
      (hoperand : Derives store (.node frame operand) (.ok value) between)
      (hrest : Derives between (.operands frame procedure (values ++ [value]) rest span)
        result after) :
      Derives store (.operands frame procedure values (operand :: rest) span) result after
  | operandFails {store frame procedure values operand rest span error after}
      (hoperand : Derives store (.node frame operand) (.error error) after) :
      Derives store (.operands frame procedure values (operand :: rest) span) (.error error) after
  | operandsEnd {store frame procedure values span result after}
      (hcall : Derives store (.call procedure values span) result after) :
      Derives store (.operands frame procedure values [] span) result after
  -- The number of arguments is looked at before anything else in a call.
  | builtinValue {store builtin arguments span value}
      (hcount : builtin.arity.Admits arguments.length)
      (hvalue : builtin.operate arguments = .ok value) :
      Derives store (.call (.builtin builtin) arguments span) (.ok value) store
  | builtinFault {store builtin arguments span fault}
      (hcount : builtin.arity.Admits arguments.length)
      (hfault : builtin.operate arguments = .error fault) :
      Derives store (.call (.builtin builtin) arguments span) (.error ⟨fault, span⟩) store
  | builtinArity {store builtin arguments span expected}
      (harity : builtin.arity = .exactly expected) (hcount : arguments.length ≠ expected) :
      Derives store (.call (.builtin builtin) arguments span)
        (.error ⟨.arityMismatch (.builtin builtin) expected arguments.length, span⟩) store
  | closure {store closure arguments span result after}
      (hcount : arguments.length = closure.parameters.length)
      (hbody : Derives
        (store.push ⟨some closure.frame, Bindings.ofPairs (closure.parameters.zip arguments)⟩)
        (.node store.nextFrame closure.body) result after) :
      Derives store (.call (.closure closure) arguments span) result after
  | closureArity {store closure arguments span}
      (hcount : arguments.length ≠ closure.parameters.length) :
      Derives store (.call (.closure closure) arguments span)
        (.error ⟨.arityMismatch .lambda closure.parameters.length arguments.length, span⟩) store

/-! ## What every derivation keeps -/

/-- The value of a builtin is a number or one of the arguments. -/
theorem Builtin.operate_eq_ok {builtin : Builtin} {arguments : List Value} {value : Value}
    (h : builtin.operate arguments = .ok value) :
    (∃ x, value = .number x) ∨ value ∈ arguments := by
  cases builtin with
  | sequence =>
    simp only [operate, pure, Except.pure, Except.ok.injEq] at h
    cases hlast : arguments.getLast? with
    | none => exact .inl ⟨0, by simpa [hlast] using h.symm⟩
    | some last =>
      rw [hlast] at h
      exact .inr (h ▸ List.mem_of_getLast? hlast)
  | add | multiply | subtract | less | equal =>
    left
    simp only [operate, bind, Except.bind] at h
    split at h
    · cases h
    · exact ⟨_, (Except.ok.inj h).symm⟩
  | divide | remainder =>
    left
    simp only [operate, bind, Except.bind] at h
    split at h
    · cases h
    · split at h
      · cases h
      · exact ⟨_, (Except.ok.inj h).symm⟩

/-- The frames that a task refers to are among the first `count`. -/
def Task.Within (count : Nat) : Task → Prop
  | .node frame _ => frame < count
  | .operands frame procedure values _ _ =>
    frame < count ∧ procedure.Within count ∧ ∀ value ∈ values, value.Within count
  | .call procedure arguments _ =>
    procedure.Within count ∧ ∀ value ∈ arguments, value.Within count

namespace Derives

variable {store after : Store} {task : Task} {result : Except EvalError Value}

/-- No evaluation removes a frame. -/
theorem size_le (h : Derives store task result after) :
    store.frames.size ≤ after.frames.size := by
  induction h with
  | define | assign => simpa
  | consequent _ _ _ _ ih ih' | alternate _ _ _ _ ih ih' | orFalse _ _ _ _ ih ih'
  | andTrue _ _ _ _ ih ih' | application _ _ _ ih ih' | operand _ _ ih ih' =>
    exact Nat.le_trans ih ih'
  | closure _ _ ih =>
    rw [Store.size_push] at ih
    exact Nat.le_of_succ_le ih
  | _ => first | exact Nat.le_refl _ | assumption

/-- An evaluation keeps the store well formed, and its value captures a frame of the store
that it leaves behind. -/
theorem wellFormed (h : Derives store task result after) (hstore : store.WellFormed)
    (htask : task.Within store.frames.size) :
    after.WellFormed ∧ ∀ value, result = .ok value → value.Within after.frames.size := by
  induction h with
  | number | orNone | andNone =>
    refine ⟨hstore, fun _ hvalue => ?_⟩
    cases hvalue
    trivial
  | symbol _ hbound =>
    refine ⟨hstore, fun _ hvalue => ?_⟩
    cases hvalue
    exact hstore.within _ _ _ hbound
  | lambda =>
    refine ⟨hstore.count _, fun _ hvalue => ?_⟩
    cases hvalue
    exact htask
  | define _ _ ih | assign _ _ _ ih =>
    obtain ⟨hafter, hvalue⟩ := ih hstore htask
    exact ⟨hafter.set _ _ (hvalue _ rfl), by simpa using hvalue⟩
  | consequent _ hfirst _ _ ih ih' | alternate _ hfirst _ _ ih ih' | orFalse _ hfirst _ _ ih ih'
  | andTrue _ hfirst _ _ ih ih' =>
    exact ih' (ih hstore htask).1 (Nat.lt_of_lt_of_le htask hfirst.size_le)
  | application _ hhead _ ih ih' =>
    obtain ⟨hbetween, hprocedure⟩ := ih hstore htask
    exact ih' hbetween ⟨Nat.lt_of_lt_of_le htask hhead.size_le, hprocedure _ rfl, by simp⟩
  | operand hoperand _ ih ih' =>
    obtain ⟨hbetween, hvalue⟩ := ih hstore htask.1
    have hle := hoperand.size_le
    exact ih' hbetween ⟨Nat.lt_of_lt_of_le htask.1 hle, htask.2.1.mono hle,
      Value.within_append_singleton htask.2.2 hle (hvalue _ rfl)⟩
  | operandFails _ ih => exact ih hstore htask.1
  | operandsEnd _ ih => exact ih hstore htask.2
  | builtinValue _ hoperate =>
    refine ⟨hstore, fun _ hvalue => ?_⟩
    cases hvalue
    rcases Builtin.operate_eq_ok hoperate with ⟨x, rfl⟩ | hmem
    · trivial
    · exact htask.2 _ hmem
  | closure _ _ ih =>
    refine ih (hstore.enter htask.1 htask.2) ?_
    simp [Task.Within, Store.nextFrame]
  | defineFails _ _ ih | assignFails _ _ _ ih | conditionFails _ _ ih | orTrue _ _ _ ih
  | orFails _ _ ih | andLast _ _ ih | andFalse _ _ _ ih | andFails _ _ ih | headFails _ _ ih =>
    exact ih hstore htask
  | notCallable _ _ ih => exact ⟨(ih hstore htask).1, by simp⟩
  | unbound | empty | misshapen | assignUnbound | builtinFault | builtinArity | closureArity =>
    exact ⟨hstore, by simp⟩

end Derives

end TinyLisp
