import TinyLisp.Proofs.Builtins
import TinyLisp.Proofs.Nodes
import TinyLisp.Proofs.Sessions

/-!
# Evaluations without closures

The body of a closure is all that an evaluation evaluates besides the parts of its node.  So where
no frame binds a closure and no `lambda` form makes one, an evaluation goes down through its node,
and its nesting is no deeper than the lists of the node are.

* `Node.height` and `Node.LambdaFree`: how deep a node is, and what it must not contain.
* `Store.ClosureFree`, `Store.NoneVisible` and `Store.SameFrames`: what an evaluation finds and what
  it leaves.
* `Evaluation.Settles`: an evaluation comes to an answer from every store of a kind, and leaves a
  store of that kind.  Each rule settles if the parts of its node do.
* `eval_settles` and `evalForms_settles`: nodes without `lambda` forms settle.
* `exists_answer_without_closures`: nodes in stores, and texts in sessions.
-/

namespace TinyLisp

open Evaluation

/-! ## Nodes -/

namespace Node

mutual

/-- The number of levels of a node.  A number or a symbol is one level, and a list is one level
above its children. -/
def height : Node → Nat
  | number _ _ => 1
  | symbol _ _ => 1
  | list children _ => heightAll children + 1

/-- The greatest number of levels of a node among some. -/
def heightAll : List Node → Nat
  | [] => 0
  | node :: rest => max node.height (heightAll rest)

end

theorem height_le_heightAll {node : Node} {nodes : List Node} (h : node ∈ nodes) :
    node.height ≤ heightAll nodes := by
  induction nodes with
  | nil => simp at h
  | cons first rest ih =>
    rw [heightAll]
    rcases List.mem_cons.mp h with rfl | hrest
    · exact Nat.le_max_left ..
    · exact Nat.le_trans (ih hrest) (Nat.le_max_right ..)

theorem height_pos (node : Node) : 0 < node.height := by
  cases node <;> simp [height]

/-- No list in the node has the symbol `lambda` at its head. -/
def LambdaFree (node : Node) : Prop :=
  ∀ head operands span, (list (head :: operands) span).Part node →
    head.name? ≠ some Keyword.lambda.word

theorem lambdaFree_number (value : Float) (span : Span) : (number value span).LambdaFree := by
  intro head operands place hpart
  cases hpart

theorem lambdaFree_symbol (name : String) (span : Span) : (symbol name span).LambdaFree := by
  intro head operands place hpart
  cases hpart

theorem lambdaFree_list_iff {children : List Node} {span : Span} :
    (list children span).LambdaFree ↔
      children.head?.bind name? ≠ some Keyword.lambda.word ∧
        ∀ child ∈ children, child.LambdaFree := by
  constructor
  · intro h
    refine ⟨?_, fun child hmem head operands place hpart => ?_⟩
    · cases children with
      | nil => simp
      | cons head operands => exact h head operands span .self
    · exact h head operands place (.child hmem hpart)
  · rintro ⟨hhead, hchildren⟩ head operands place hpart
    cases hpart with
    | self => exact hhead
    | child hmem hpart => exact hchildren _ hmem head operands place hpart

/-- The form of a keyword is no `lambda` form. -/
theorem LambdaFree.keyword?_ne {head : Node} {operands : List Node} {span : Span}
    (h : (list (head :: operands) span).LambdaFree) : Eval.keyword? head ≠ some .lambda := by
  intro hkey
  cases head with
  | symbol name place =>
    refine h _ _ _ .self ?_
    rw [name?, Keyword.word_of_ofName? hkey]
  | number | list => cases hkey

end Node

/-! ## Stores and values -/

/-- A number or a builtin. -/
def Value.IsPlain (value : Value) : Prop :=
  value.ForClosures fun _ => False

theorem Value.isPlain_iff {value : Value} :
    value.IsPlain ↔ (∃ x, value = .number x) ∨
      ∃ builtin, value = .procedure (.builtin builtin) := by
  match value with
  | .number x => simp [IsPlain, ForClosures]
  | .procedure (.builtin b) => simp [IsPlain, ForClosures, Procedure.ForClosures]
  | .procedure (.closure c) => simp [IsPlain, ForClosures, Procedure.ForClosures]

namespace Store

variable {store between after : Store}

/-- No frame of the store binds a closure. -/
def ClosureFree (store : Store) : Prop :=
  ∀ closure, ¬ store.Binds closure

theorem closureFree_iff : store.ClosureFree ↔ store.ForClosures fun _ => False :=
  forClosures_iff.symm

/-- No name that is visible from the frame has a closure as its value. -/
def NoneVisible (store : Store) (frame : Nat) : Prop :=
  ∀ name closure, store.lookup? frame name ≠ some (.procedure (.closure closure))

theorem noneVisible_iff {frame : Nat} : store.NoneVisible frame ↔
    ∀ name value, store.lookup? frame name = some value → value.IsPlain := by
  constructor
  · intro h name value hvalue
    match value with
    | .number _ => trivial
    | .procedure (.builtin _) => trivial
    | .procedure (.closure closure) => exact absurd hvalue (h name closure)
  · intro h name closure hvalue
    exact h name _ hvalue

/-- A name has the value that its frame binds it to, and otherwise that in the frame around. -/
theorem lookup?_eq (store : Store) (frame : Nat) (name : String) :
    store.lookup? frame name =
      (store.get? frame name).or ((store.outer? frame).bind fun outer =>
        if outer < frame then store.lookup? outer name else none) := by
  unfold lookup?
  rw [find?_eq]
  cases hget : store.get? frame name with
  | some value => simp [hget]
  | none =>
    cases store.outer? frame with
    | none => rfl
    | some outer =>
      by_cases hlt : outer < frame
      · simp [hlt]
      · simp [hlt]

/-- To bind a value shows no other values than before, and that value. -/
theorem lookup?_set (store : Store) (owner frame : Nat) (name wanted : String) (value : Value) :
    (store.set owner name value).lookup? frame wanted = some value ∨
      (store.set owner name value).lookup? frame wanted = store.lookup? frame wanted := by
  -- The walk goes outward to frames of lower numbers.
  induction frame using Nat.strongRecOn with
  | ind frame ih =>
    rw [lookup?_eq, lookup?_eq store, get?_set, outer?_set]
    by_cases hhit : owner = frame ∧ name = wanted ∧ frame < store.frames.size
    · left
      rw [if_pos hhit, Option.some_or]
    · rw [if_neg hhit]
      cases hget : store.get? frame wanted with
      | some bound => simp
      | none =>
        cases store.outer? frame with
        | none => simp
        | some outer =>
          by_cases hlt : outer < frame
          · simpa [hlt] using ih outer hlt
          · simp [hlt]

/-- The frames of the second store are those of the first, each enclosed as it was, and no closure
was made. -/
structure SameFrames (store after : Store) : Prop where
  size : after.frames.size = store.frames.size
  outer? : ∀ frame, after.outer? frame = store.outer? frame
  closures : after.closures = store.closures

theorem SameFrames.refl (store : Store) : store.SameFrames store :=
  ⟨rfl, fun _ => rfl, rfl⟩

theorem SameFrames.trans (h : store.SameFrames between) (h' : between.SameFrames after) :
    store.SameFrames after where
  size := h'.size.trans h.size
  outer? frame := (h'.outer? frame).trans (h.outer? frame)
  closures := h'.closures.trans h.closures

theorem sameFrames_set (store : Store) (frame : Nat) (name : String) (value : Value) :
    store.SameFrames (store.set frame name value) :=
  ⟨size_set .., fun _ => outer?_set .., rfl⟩

end Store

/-! ## Evaluations that settle -/

/-- The stores of a kind show no closures in the frame, and a store stays of the kind when a number
or a builtin is bound. -/
structure Store.Quiet (frame : Nat) (S : Store → Prop) : Prop where
  plain : ∀ {store name value}, S store → store.lookup? frame name = some value → value.IsPlain
  set : ∀ {store value} owner name, S store → value.IsPlain → S (store.set owner name value)

theorem Store.quiet_closureFree (frame : Nat) : Quiet frame ClosureFree where
  plain hstore hlookup := by
    unfold lookup? at hlookup
    split at hlookup
    · exact closureFree_iff.mp hstore _ _ _ hlookup
    · cases hlookup
  set owner name hstore hvalue := by
    rw [closureFree_iff] at hstore ⊢
    exact hstore.set owner name hvalue

theorem Store.quiet_noneVisible (frame : Nat) :
    Quiet frame fun store => store.NoneVisible frame where
  plain hstore hlookup := noneVisible_iff.mp hstore _ _ hlookup
  set {store value} owner name hstore hvalue := by
    rw [noneVisible_iff] at hstore ⊢
    intro wanted shown hshown
    rcases lookup?_set store owner frame name wanted value with hnew | hold
    · cases hnew.symm.trans hshown
      exact hvalue
    · exact hstore wanted shown (hold ▸ hshown)

/-- Stores can be of two kinds at once. -/
theorem Store.Quiet.and {frame : Nat} {S T : Store → Prop} (h : Quiet frame S)
    (hset : ∀ {store value} owner name, T store → value.IsPlain → T (store.set owner name value)) :
    Quiet frame fun store => S store ∧ T store where
  plain hstore := h.plain hstore.1
  set owner name hstore hvalue :=
    ⟨h.set owner name hstore.1 hvalue, hset owner name hstore.2 hvalue⟩

namespace Evaluation

variable {α β : Type} {S : Store → Prop} {P : α → Prop} {Q : β → Prop}

/-- From every store of the kind the evaluation comes to an answer.  It leaves the same frames
behind, in a store of the same kind, and its value, if it has one, has the property. -/
def Settles (S : Store → Prop) (evaluation : Evaluation α) (P : α → Prop) : Prop :=
  ∀ store, S store → ∃ result after, evaluation store = some (result, after) ∧
    store.SameFrames after ∧ S after ∧ ∀ a, result = .ok a → P a

theorem settles_pure {a : α} (h : P a) : Settles S (pure a) P := by
  intro store hstore
  refine ⟨.ok a, store, rfl, .refl store, hstore, fun b hb => ?_⟩
  cases hb
  exact h

theorem settles_fail (fault : Fault) (span : Span) : Settles S (fail fault span) P := by
  intro store hstore
  refine ⟨.error ⟨fault, span⟩, store, rfl, .refl store, hstore, fun b hb => ?_⟩
  cases hb

/-- What comes behind a value may rely on what is known of it. -/
theorem Settles.bind {first : Evaluation α} {second : α → Evaluation β} (h : Settles S first P)
    (k : ∀ a, P a → Settles S (second a) Q) : Settles S (first >>= second) Q := by
  intro store hstore
  obtain ⟨result, between, hfirst, hframes, hbetween, hresult⟩ := h store hstore
  rw [bind_apply, hfirst]
  cases result with
  | error error =>
    refine ⟨.error error, between, rfl, hframes, hbetween, fun b hb => ?_⟩
    cases hb
  | ok a =>
    obtain ⟨last, after, hsecond, hmore, hafter, hlast⟩ := k a (hresult a rfl) between hbetween
    exact ⟨last, after, hsecond, hframes.trans hmore, hafter, hlast⟩

theorem settles_get_bind {next : Store → Evaluation α} (h : ∀ store, Settles S (next store) P) :
    Settles S (get >>= next) P := by
  intro store hstore
  rw [bind_apply, get_apply]
  exact h store store hstore

/-- To bind a plain value and give it. -/
theorem settles_set_bind {frame : Nat} (hquiet : Store.Quiet frame S) (owner : Nat) (name : String)
    {value : Value} (h : value.IsPlain) :
    Settles S (do
      modify fun store => store.set owner name value
      return value) Value.IsPlain := by
  intro store hstore
  refine ⟨.ok value, store.set owner name value, rfl, Store.sameFrames_set .., ?_, fun b hb => ?_⟩
  · exact hquiet.set owner name hstore h
  · cases hb
    exact h

end Evaluation

/-! ## Rules -/

namespace Eval

variable {recur : Nat → Node → Evaluation Value} {S : Store → Prop} {frame : Nat}
  {operands : List Node} {span : Span}

theorem symbolValue_settles (hquiet : Store.Quiet frame S) (name : String) (span : Span) :
    Settles S (symbolValue frame name span) Value.IsPlain := by
  intro store hstore
  refine ⟨_, store, symbolValue_apply frame name span store, .refl store, hstore,
    fun value hvalue => ?_⟩
  cases hlookup : store.lookup? frame name with
  | none =>
    rw [hlookup] at hvalue
    cases hvalue
  | some found =>
    rw [hlookup] at hvalue
    cases hvalue
    exact hquiet.plain hstore hlookup

section Operands

variable (hrecur : ∀ node ∈ operands, Settles S (recur frame node) Value.IsPlain)

include hrecur

theorem each_settles :
    Settles S (each recur frame operands) fun values => ∀ value ∈ values, value.IsPlain := by
  induction operands with
  | nil => exact settles_pure (by simp)
  | cons node rest ih =>
    obtain ⟨hnode, hrest⟩ := List.forall_mem_cons.mp hrecur
    refine hnode.bind fun value hvalue => (ih hrest).bind fun values hvalues => ?_
    exact settles_pure (List.forall_mem_cons.mpr ⟨hvalue, hvalues⟩)

theorem firstTrue_settles : Settles S (firstTrue recur frame operands) Value.IsPlain := by
  induction operands with
  | nil => exact settles_pure trivial
  | cons node rest ih =>
    obtain ⟨hnode, hrest⟩ := List.forall_mem_cons.mp hrecur
    refine hnode.bind fun value hvalue => ?_
    by_cases htrue : value.isTruthy
    · rw [if_pos htrue]
      exact settles_pure hvalue
    · rw [if_neg htrue]
      exact ih hrest

theorem allTrue_settles {last : Value} (hlast : last.IsPlain) :
    Settles S (allTrue recur frame last operands) Value.IsPlain := by
  induction operands generalizing last with
  | nil => exact settles_pure hlast
  | cons node rest ih =>
    obtain ⟨hnode, hrest⟩ := List.forall_mem_cons.mp hrecur
    refine hnode.bind fun value hvalue => ?_
    by_cases htrue : value.isTruthy
    · rw [if_pos htrue]
      exact ih hrest hvalue
    · rw [if_neg htrue]
      exact settles_pure hvalue

/-- The node whose value is to be bound is one of the operands. -/
theorem settles_of_binding {name : String} {place : Span} {node : Node}
    (h : binding operands = .ok (name, place, node)) :
    Settles S (recur frame node) Value.IsPlain := by
  obtain rfl := binding_eq_ok h
  exact hrecur node (by simp)

theorem choose_settles : Settles S (choose recur frame operands span) Value.IsPlain := by
  unfold choose
  split
  · rename_i condition consequent alternate
    have hcondition := hrecur condition (by simp)
    have hconsequent := hrecur consequent (by simp)
    have halternate := hrecur alternate (by simp)
    refine hcondition.bind fun value _ => ?_
    split
    · split
      · exact hconsequent
      · exact halternate
    · exact halternate
  · exact settles_fail _ _

variable (hquiet : Store.Quiet frame S)

include hquiet

theorem define_settles : Settles S (define recur frame operands span) Value.IsPlain := by
  unfold define
  split
  · exact settles_fail _ _
  · rename_i name place node hbinding
    exact (settles_of_binding hrecur hbinding).bind fun value hvalue =>
      settles_set_bind hquiet frame name hvalue

theorem assign_settles : Settles S (assign recur frame operands span) Value.IsPlain := by
  unfold assign
  split
  · exact settles_fail _ _
  · rename_i name place node hbinding
    refine settles_get_bind fun store => ?_
    split
    · exact settles_fail _ _
    · rename_i owner _
      exact (settles_of_binding hrecur hbinding).bind fun value hvalue =>
        settles_set_bind hquiet owner name hvalue

/-- Every special form settles but for `lambda`, which makes a closure. -/
theorem specialForm_settles {keyword : Keyword} (hkey : keyword ≠ .lambda) :
    Settles S (specialForm recur keyword frame operands span) Value.IsPlain := by
  cases keyword with
  | define => exact define_settles hrecur hquiet
  | set => exact assign_settles hrecur hquiet
  | «if» => exact choose_settles hrecur
  | or => exact firstTrue_settles hrecur
  | and => exact allTrue_settles hrecur trivial
  | lambda => exact absurd rfl hkey

end Operands

/-- A builtin gives a number or one of its arguments. -/
theorem apply_builtin_settles (builtin : Builtin) {arguments : List Value}
    (harguments : ∀ argument ∈ arguments, argument.IsPlain) (span : Span) :
    Settles S (apply recur (.builtin builtin) arguments span) Value.IsPlain := by
  show Settles S (ofExcept span (builtin.call arguments)) Value.IsPlain
  cases hcall : builtin.call arguments with
  | error fault => exact settles_fail fault span
  | ok value =>
    refine settles_pure ?_
    rcases Builtin.operate_eq_ok (Builtin.operate_of_call hcall) with ⟨x, rfl⟩ | hmem
    · trivial
    · exact harguments value hmem

/-- What a plain value applies is a builtin, so no body is evaluated. -/
theorem application_settles {head : Node}
    (hrecur : ∀ node ∈ head :: operands, Settles S (recur frame node) Value.IsPlain) :
    Settles S (application recur frame head operands span) Value.IsPlain := by
  obtain ⟨hhead, hoperands⟩ := List.forall_mem_cons.mp hrecur
  refine hhead.bind fun value hvalue => ?_
  match value, hvalue with
  | .number x, _ => exact settles_fail _ _
  | .procedure (.builtin builtin), _ =>
    exact (each_settles hoperands).bind fun arguments harguments =>
      apply_builtin_settles builtin harguments span

/-- A node without `lambda` forms settles if its children do. -/
theorem step_settles {node : Node} (hfree : node.LambdaFree) (hquiet : Store.Quiet frame S)
    (hrecur : ∀ children span, node = .list children span →
      ∀ child ∈ children, Settles S (recur frame child) Value.IsPlain) :
    Settles S (step recur frame node) Value.IsPlain := by
  unfold step
  split
  · exact settles_pure trivial
  · exact symbolValue_settles hquiet _ _
  · exact settles_fail _ _
  · rename_i head operands span
    have hchildren := hrecur _ _ rfl
    split
    · rename_i keyword hkey
      have hlambda : keyword ≠ .lambda := fun heq => hfree.keyword?_ne (heq ▸ hkey)
      exact specialForm_settles (List.forall_mem_cons.mp hchildren).2 hquiet hlambda
    · exact application_settles hchildren

end Eval

/-! ## Nodes and forms -/

section Forms

variable {S : Store → Prop} {depth frame : Nat} (hquiet : Store.Quiet frame S)

include hquiet

/-- A node without `lambda` forms needs no more depth than it has levels. -/
theorem eval_settles {node : Node} (hfree : node.LambdaFree) (hdepth : node.height ≤ depth) :
    Settles S (eval depth frame node) Value.IsPlain := by
  induction depth generalizing node with
  | zero =>
    have hpos := node.height_pos
    omega
  | succ depth ih =>
    show Settles S (Eval.step (eval depth) frame node) Value.IsPlain
    refine Eval.step_settles hfree hquiet fun children span hnode child hmem => ?_
    subst hnode
    have hchild := (Node.lambdaFree_list_iff.mp hfree).2 child hmem
    have hlower : child.height ≤ depth := by
      have hmax := Node.height_le_heightAll hmem
      rw [Node.height] at hdepth
      omega
    exact ih hchild hlower

/-- Forms settle one after the other, each from the store that the one before leaves. -/
theorem evalForms_settles {forms : List Node} (hfree : ∀ form ∈ forms, form.LambdaFree)
    (hdepth : Node.heightAll forms ≤ depth) {last : Option Value}
    (hlast : ∀ value ∈ last, value.IsPlain) :
    Settles S (evalForms depth frame last forms) fun answer => ∀ value ∈ answer, value.IsPlain := by
  induction forms generalizing last with
  | nil => exact settles_pure hlast
  | cons form rest ih =>
    obtain ⟨hform, hrest⟩ := List.forall_mem_cons.mp hfree
    rw [Node.heightAll, Nat.max_le] at hdepth
    refine (eval_settles hquiet hform hdepth.1).bind fun value hvalue => ih hrest hdepth.2 ?_
    intro other hother
    cases hother
    exact hvalue

end Forms

/-- A greater depth gives the same answers for forms in a row. -/
theorem evalForms_extends {small large : Nat} (h : small ≤ large) (frame : Nat)
    (last : Option Value) (forms : List Node) :
    Extends (evalForms small frame last forms) (evalForms large frame last forms) := by
  induction forms generalizing last with
  | nil => exact .refl _
  | cons form rest ih => exact (eval_extends h frame form).bind fun value => ih (some value)

theorem closureFree_new : Session.new.store.ClosureFree :=
  Store.closureFree_iff.mpr Store.ForClosures.empty.addGlobal

/-- Evaluations come to an end where there are no closures.

* If no frame binds a closure, a node without `lambda` forms comes to an answer at every depth from
  its number of levels on, and always to the same.  A value is a number or a builtin, there are no
  new frames or closures, and still no frame binds a closure.
* The same holds of a text in a session that shows no closures, if no form in front of its first
  fault has `lambda` forms.  The depth is that of the highest of these forms. -/
theorem exists_answer_without_closures :
    (∀ (store : Store) (frame : Nat) (node : Node), store.ClosureFree → node.LambdaFree →
      ∃ result after,
        (∀ depth, node.height ≤ depth → eval depth frame node store = some (result, after)) ∧
        (∀ value, result = .ok value →
          (∃ x, value = .number x) ∨ ∃ builtin, value = .procedure (.builtin builtin)) ∧
        store.SameFrames after ∧ after.ClosureFree) ∧
    ∀ (session : Session) (text : String), session.store.NoneVisible session.root →
      (∀ form ∈ Session.forms text, form.LambdaFree) →
      ∃ result after,
        (∀ depth, Node.heightAll (Session.forms text) ≤ depth →
          session.eval depth text = some (result, { session with store := after })) ∧
        (∀ value, result = .ok (some value) →
          (∃ x, value = .number x) ∨ ∃ builtin, value = .procedure (.builtin builtin)) ∧
        session.store.SameFrames after ∧ after.NoneVisible session.root ∧
        (session.store.ClosureFree → after.ClosureFree) := by
  refine ⟨fun store frame node hstore hfree => ?_, fun session text hsession hforms => ?_⟩
  · obtain ⟨result, after, heval, hframes, hafter, hresult⟩ :=
      eval_settles (Store.quiet_closureFree frame) hfree (Nat.le_refl _) store hstore
    refine ⟨result, after, fun depth hdepth => ?_, fun value hvalue => ?_, hframes, hafter⟩
    · exact eval_extends hdepth frame node store _ heval
    · exact Value.isPlain_iff.mp (hresult value hvalue)
  · -- Whether any frame binds a closure is kept track of beside what the session shows.
    have hquiet := (Store.quiet_noneVisible session.root).and
      (T := fun after => session.store.ClosureFree → after.ClosureFree)
      fun owner name hafter hvalue hclosures =>
        (Store.quiet_closureFree session.root).set owner name (hafter hclosures) hvalue
    have hnone : ∀ value ∈ (none : Option Value), value.IsPlain := by simp
    obtain ⟨answer, after, heval, hframes, ⟨hvisible, hclosures⟩, hanswer⟩ :=
      evalForms_settles hquiet hforms (Nat.le_refl _) hnone session.store ⟨hsession, id⟩
    refine ⟨sourceResult answer (Session.fault? text), after, fun depth hdepth => ?_,
      fun value hvalue => ?_, hframes, hvisible, hclosures⟩
    · have hmore := evalForms_extends hdepth session.root none _ session.store _ heval
      exact Session.eval_eq_some_iff.mpr ⟨answer, after, hmore, rfl, rfl⟩
    · exact Value.isPlain_iff.mp (hanswer _ (sourceResult_eq_ok hvalue) value rfl)

/-- `(define + begin)`, `(set! begin (or 0 -))` and `(+ begin 2)`, in a text on its own. -/
def rebinding : List Node :=
  [.list [.symbol "define" ⟨1, 7⟩, .symbol "+" ⟨8, 9⟩, .symbol "begin" ⟨10, 15⟩] ⟨0, 16⟩,
    .list [.symbol "set!" ⟨18, 22⟩, .symbol "begin" ⟨23, 28⟩,
      .list [.symbol "or" ⟨30, 32⟩, .number 0 ⟨33, 34⟩, .symbol "-" ⟨35, 36⟩] ⟨29, 37⟩] ⟨17, 38⟩,
    .list [.symbol "+" ⟨40, 41⟩, .symbol "begin" ⟨42, 47⟩, .number 2 ⟨48, 49⟩] ⟨39, 50⟩]

/-- In a new session the last form fails, since a builtin is no number.  Behind the other two forms
`+` is the builtin that gives its last argument, and the text gives two. -/
theorem exists_answer_rebinding :
    (∀ depth, 2 ≤ depth → eval depth 0 rebinding[2] Session.new.store =
      some (.error ⟨.typeMismatch .add 1 .builtin, ⟨39, 50⟩⟩, Session.new.store)) ∧
    (∀ form ∈ rebinding, form.LambdaFree) ∧ Session.new.store.ClosureFree ∧
    ∃ after, Session.new.store.SameFrames after ∧ after.ClosureFree ∧ ∀ depth, 3 ≤ depth →
      Session.new.eval depth "(define + begin) (set! begin (or 0 -)) (+ begin 2)" =
        some (.ok (some (.number 2)), ⟨after, 0⟩) := by
  have hread : Reader.readAll
      (Token.tokenize "(define + begin) (set! begin (or 0 -)) (+ begin 2)") =
        (rebinding, none) := by
    have hforms : ∃ tokens more,
        Reader.read (Token.tokenize "(define + begin) (set! begin (or 0 -)) (+ begin 2)") =
          .ok (rebinding[0], tokens) ∧
        Reader.read tokens = .ok (rebinding[1], more) ∧
        Reader.read more = .ok (rebinding[2], []) :=
      ⟨_, _, rfl, rfl, rfl⟩
    obtain ⟨tokens, more, hfirst, hsecond, hthird⟩ := hforms
    rw [Reader.readAll_of_read hfirst, Reader.readAll_of_read hsecond,
      Reader.readAll_of_read hthird, Reader.readAll_nil]
    rfl
  have hforms : Session.forms "(define + begin) (set! begin (or 0 -)) (+ begin 2)" = rebinding := by
    rw [Session.forms, hread]
  have hfree : ∀ form ∈ rebinding, form.LambdaFree := by
    simp [rebinding, Node.lambdaFree_list_iff, Node.lambdaFree_symbol, Node.lambdaFree_number,
      Node.name?, Keyword.word]
  have hclosures := closureFree_new
  have hvisible : Session.new.store.NoneVisible Session.new.root :=
    Store.noneVisible_iff.mpr fun _ _ => (Store.quiet_closureFree _).plain hclosures
  obtain ⟨honNode, honText⟩ := exists_answer_without_closures
  refine ⟨?_, hfree, hclosures, ?_⟩
  · obtain ⟨result, after, heval, -⟩ := honNode _ 0 rebinding[2] hclosures (hfree _ (by simp))
    have hanswer : eval 2 0 rebinding[2] Session.new.store =
        some (.error ⟨.typeMismatch .add 1 .builtin, ⟨39, 50⟩⟩, Session.new.store) := by
      with_unfolding_all rfl
    have hsame := (heval 2 (by decide)).symm.trans hanswer
    intro depth hdepth
    exact (heval depth hdepth).trans hsame
  · obtain ⟨result, after, heval, -, hframes, -, hafter⟩ :=
      honText .new "(define + begin) (set! begin (or 0 -)) (+ begin 2)" hvisible (hforms ▸ hfree)
    rw [hforms] at heval
    have hanswer : Session.new.eval 3 "(define + begin) (set! begin (or 0 -)) (+ begin 2)" =
        some (.ok (some (.number 2)),
          ⟨(Session.new.store.set 0 "+" (.procedure (.builtin .sequence))).set 0 "begin"
            (.procedure (.builtin .subtract)), 0⟩) := by
      refine Session.eval_eq_some_iff.mpr ⟨.ok (some (.number 2)), _, ?_, ?_, rfl⟩
      · rw [hforms]
        with_unfolding_all rfl
      · rw [Session.fault?, hread]
        rfl
    obtain ⟨rfl, -⟩ := Prod.mk.inj (Option.some.inj ((heval 3 (by decide)).symm.trans hanswer))
    exact ⟨after, hframes, hafter hclosures, heval⟩

end TinyLisp
