import Mathlib.Data.List.Forall2
import Mathlib.Order.Defs.PartialOrder
import TinyLisp.Proofs.Adequacy
import TinyLisp.Proofs.Nodes
import TinyLisp.Session

/-!
# Two runs side by side

A `Simulation` relates two runs of the evaluator whose stores, nodes and closures need not be the
same.  It lists what the primitive steps have to keep: finding a name, binding it, making a
closure, and making the frame of a call.  Then every rule of the language keeps it too, and two
evaluations that begin alike end alike, at the same depth.

What corresponds to what can grow while the runs go on, as frames are made.  A world says how
much corresponds so far.

* `Value.Related` and what builtins make of related arguments.
* `Node.Matches`: nodes with the same rule and related parts.  By
  `Node.Likeness.Keeps.matches_relabel` a node with other names and spans is one of them.
* `Simulation` and `Simulation.Relates`, with one lemma for each way to put evaluations together.
* `Simulation.eval_relates`, and the same for calls and for the forms of a text.
-/

namespace TinyLisp

open Evaluation

/-! ## Related values -/

/-- The same builtin, or closures that are related. -/
inductive Procedure.Related (R : Closure → Closure → Prop) : Procedure → Procedure → Prop where
  | builtin {b : Builtin} : Related R (.builtin b) (.builtin b)
  | closure {c d : Closure} (h : R c d) : Related R (.closure c) (.closure d)

/-- The same number, or procedures that are related. -/
inductive Value.Related (R : Closure → Closure → Prop) : Value → Value → Prop where
  | number {x : Float} : Related R (.number x) (.number x)
  | procedure {p q : Procedure} (h : p.Related R q) : Related R (.procedure p) (.procedure q)

/-- The same fault, or values that are related. -/
inductive Value.RelatedResult (R : Closure → Closure → Prop) :
    Except Fault Value → Except Fault Value → Prop where
  | fault {fault : Fault} : RelatedResult R (.error fault) (.error fault)
  | value {v w : Value} (h : v.Related R w) : RelatedResult R (.ok v) (.ok w)

namespace Value

variable {R Q : Closure → Closure → Prop} {v w : Value}

theorem Related.mono (h : v.Related R w) (himp : ∀ c d, R c d → Q c d) : v.Related Q w := by
  cases h with
  | number => exact .number
  | procedure h =>
    cases h with
    | builtin => exact .procedure .builtin
    | closure h => exact .procedure (.closure (himp _ _ h))

/-- A value is related to itself if its closure is. -/
theorem ForClosures.related {P : Closure → Prop} (h : v.ForClosures P) (hself : ∀ c, P c → R c c) :
    v.Related R v := by
  cases v with
  | number => exact .number
  | procedure p =>
    cases p with
    | builtin => exact .procedure .builtin
    | closure c => exact .procedure (.closure (hself c h))

theorem Related.kind_eq (h : v.Related R w) : v.kind = w.kind := by
  cases h with
  | number => rfl
  | procedure h => cases h <;> rfl

theorem Related.isTruthy_eq (h : v.Related R w) : v.isTruthy = w.isTruthy := by
  cases h <;> rfl

theorem Related.number?_eq (h : v.Related R w) : v.number? = w.number? := by
  cases h <;> rfl

end Value

namespace Builtin

variable {R : Closure → Closure → Prop} {builtin : Builtin} {arguments others : List Value}

theorem numbersFrom_related (h : List.Forall₂ (Value.Related R) arguments others)
    (position : Nat) :
    builtin.numbersFrom position arguments = builtin.numbersFrom position others := by
  induction h generalizing position with
  | nil => rfl
  | cons hfirst _ ih => simp only [numbersFrom, hfirst.number?_eq, hfirst.kind_eq, ih]

theorem numbers_related (h : List.Forall₂ (Value.Related R) arguments others) :
    builtin.numbers arguments = builtin.numbers others :=
  numbersFrom_related h 1

theorem twoNumbers_related (h : List.Forall₂ (Value.Related R) arguments others) :
    builtin.twoNumbers arguments = builtin.twoNumbers others := by
  rw [twoNumbers, twoNumbers, numbers_related h]

/-- The last of some related values, or a number if there is none. -/
theorem getLast?_getD_related (h : List.Forall₂ (Value.Related R) arguments others) (x : Float) :
    (arguments.getLast?.getD (.number x)).Related R (others.getLast?.getD (.number x)) := by
  induction h with
  | nil => exact .number
  | @cons v w vs ws hfirst hrest ih =>
    cases hrest with
    | nil => exact hfirst
    | cons => simpa only [List.getLast?_cons_cons] using ih

theorem operate_related (h : List.Forall₂ (Value.Related R) arguments others) :
    Value.RelatedResult R (builtin.operate arguments) (builtin.operate others) := by
  cases builtin with
  | sequence => exact .value (getLast?_getD_related h 0)
  | add | multiply =>
    simp only [operate, numbers_related h]
    cases numbers _ others with
    | error => exact .fault
    | ok => exact .value .number
  | subtract | less | equal =>
    simp only [operate, twoNumbers_related h]
    cases twoNumbers _ others with
    | error => exact .fault
    | ok => exact .value .number
  | divide | remainder =>
    simp only [operate, twoNumbers_related h]
    cases twoNumbers _ others with
    | error => exact .fault
    | ok =>
      simp only [bind, Except.bind]
      split
      · exact .fault
      · exact .value .number

/-- A builtin does not tell related arguments apart. -/
theorem call_related (h : List.Forall₂ (Value.Related R) arguments others) :
    Value.RelatedResult R (builtin.call arguments) (builtin.call others) := by
  simp only [call, h.length_eq]
  split
  · exact operate_related h
  · split
    · exact operate_related h
    · exact .fault

end Builtin

/-! ## Nodes with the same rule -/

/-- What of two nodes is alike: spans, names, nodes, the parameters and bodies of `lambda` forms,
and the errors of forms that have a wrong shape. -/
structure Node.Likeness where
  spans : Span → Span → Prop
  names : String → String → Prop
  nodes : Node → Node → Prop
  lambdas : List String → Node → List String → Node → Prop
  errors : EvalError → EvalError → Prop

/-- The same rule of the language applies to both nodes, and what the rule uses of them is
alike. -/
inductive Node.Matches (like : Likeness) : Node → Node → Prop where
  | number {x span place} : Matches like (.number x span) (.number x place)
  | symbol {a b span place} (hspan : like.spans span place) (h : like.names a b) :
      Matches like (.symbol a span) (.symbol b place)
  | empty {span place} (hspan : like.spans span place) :
      Matches like (.list [] span) (.list [] place)
  | application {head other operands others span place} (hkey : Eval.keyword? head = none)
      (hother : Eval.keyword? other = none) (hspan : like.spans span place)
      (hplace : like.spans head.span other.span) (hhead : like.nodes head other)
      (hoperands : List.Forall₂ like.nodes operands others) :
      Matches like (.list (head :: operands) span) (.list (other :: others) place)
  | binding {keyword head other a b mark spot n m span place}
      (hkey : Eval.keyword? head = some keyword) (hother : Eval.keyword? other = some keyword)
      (hbinds : keyword = .define ∨ keyword = .set) (hmark : like.spans mark spot)
      (hname : like.names a b) (hnode : like.nodes n m) :
      Matches like (.list [head, .symbol a mark, n] span) (.list [other, .symbol b spot, m] place)
  | branches {head other condition consequent alternate check first second span place}
      (hkey : Eval.keyword? head = some .if) (hother : Eval.keyword? other = some .if)
      (hcondition : like.nodes condition check) (hconsequent : like.nodes consequent first)
      (halternate : like.nodes alternate second) :
      Matches like (.list [head, condition, consequent, alternate] span)
        (.list [other, check, first, second] place)
  | operands {keyword head other operands others span place}
      (hkey : Eval.keyword? head = some keyword) (hother : Eval.keyword? other = some keyword)
      (htests : keyword = .or ∨ keyword = .and)
      (hoperands : List.Forall₂ like.nodes operands others) :
      Matches like (.list (head :: operands) span) (.list (other :: others) place)
  | lambda {head other ns mark parameters body ms spot formals code span place}
      (hkey : Eval.keyword? head = some .lambda) (hother : Eval.keyword? other = some .lambda)
      (hparameters : Eval.parameters ns = .ok parameters)
      (hformals : Eval.parameters ms = .ok formals)
      (h : like.lambdas parameters body formals code) :
      Matches like (.list [head, .list ns mark, body] span)
        (.list [other, .list ms spot, code] place)
  | misshapen {keyword head other operands others span place complaint objection mark spot}
      (hkey : Eval.keyword? head = some keyword) (hother : Eval.keyword? other = some keyword)
      (hshape : Misshapen keyword operands span complaint mark)
      (hwrong : Misshapen keyword others place objection spot)
      (herror : like.errors ⟨.malformed keyword complaint, mark⟩
        ⟨.malformed keyword objection, spot⟩) :
      Matches like (.list (head :: operands) span) (.list (other :: others) place)

section Relabel

variable {g : Span → Span}

@[simp] theorem Node.name?_respan (node : Node) : (node.respan g).name? = node.name? := by
  cases node <;> simp [name?]

@[simp] theorem Eval.keyword?_respan (node : Node) : keyword? (node.respan g) = keyword? node := by
  cases node <;> simp [keyword?]

/-- The shape of a form does not depend on spans. -/
theorem Misshapen.respan {keyword : Keyword} {operands : List Node} {complaint : Complaint}
    {span place : Span} (h : Misshapen keyword operands span complaint place) :
    Misshapen keyword (operands.map (Node.respan g)) (g span) complaint (g place) := by
  cases h with
  | name hbinds htarget => exact .name hbinds (by rwa [Node.name?_respan])
  | binding hbinds hcount => exact .binding hbinds (by rwa [List.length_map])
  | parts hcount => exact .parts (by rwa [List.length_map])
  | parameters hshape =>
    refine .parameters fun nodes place body heq => ?_
    match operands, hshape, heq with
    | [.list ns mark, code], hshape, _ => exact hshape ns mark code rfl
    | [], _, heq | [_], _, heq | _ :: _ :: _ :: _, _, heq | [.number _ _, _], _, heq
    | [.symbol _ _, _], _, heq => simp at heq
  | @parameter before later bad body mark span hbefore hbad =>
    have hnames : ∀ node ∈ before.map (Node.respan g), node.name? ≠ none := by
      simpa using hbefore
    have hwrong : (bad.respan g).name? = none := (Node.name?_respan bad).trans hbad
    have hshape : Misshapen .lambda [.list (before.map (Node.respan g) ++ bad.respan g ::
        later.map (Node.respan g)) (g mark), body.respan g] (g span) _ _ :=
      .parameter hnames hwrong
    simpa using hshape

/-- The complaint about a parameter shows it with its new names. -/
inductive Complaint.Renamed (r : String → String) : Complaint → Complaint → Prop where
  | same {complaint : Complaint} : Renamed r complaint complaint
  | parameter {node : Node} :
      Renamed r (.badParameter node.render) (.badParameter (node.rename r).render)

theorem Complaint.Renamed.eq {complaint objection : Complaint} (h : complaint.Renamed id objection) :
    objection = complaint := by
  cases h with
  | same => rfl
  | parameter => rw [Node.rename_id]

variable {r : String → String}

@[simp] theorem Node.name?_rename (node : Node) : (node.rename r).name? = node.name?.map r := by
  cases node <;> simp [name?]

/-- New names do not make a keyword of a head if they do not make one of a name. -/
theorem Eval.keyword?_rename (hkeys : ∀ name, Keyword.ofName? (r name) = Keyword.ofName? name)
    (node : Node) : keyword? (node.rename r) = keyword? node := by
  cases node <;> simp [keyword?, hkeys]

/-- The shape of a form does not depend on names. -/
theorem Misshapen.rename {keyword : Keyword} {operands : List Node} {complaint : Complaint}
    {span place : Span} (h : Misshapen keyword operands span complaint place) :
    ∃ objection, complaint.Renamed r objection ∧
      Misshapen keyword (operands.map (Node.rename r)) span objection place := by
  cases h with
  | name hbinds htarget => exact ⟨_, .same, .name hbinds (by simp [htarget])⟩
  | binding hbinds hcount => exact ⟨_, .same, .binding hbinds (by rwa [List.length_map])⟩
  | parts hcount => exact ⟨_, .same, .parts (by rwa [List.length_map])⟩
  | parameters hshape =>
    refine ⟨_, .same, .parameters fun nodes place body heq => ?_⟩
    match operands, hshape, heq with
    | [.list ns mark, code], hshape, _ => exact hshape ns mark code rfl
    | [], _, heq | [_], _, heq | _ :: _ :: _ :: _, _, heq | [.number _ _, _], _, heq
    | [.symbol _ _, _], _, heq => simp at heq
  | @parameter before later bad body mark span hbefore hbad =>
    have hnames : ∀ node ∈ before.map (Node.rename r), node.name? ≠ none := by
      simpa using hbefore
    have hwrong : (bad.rename r).name? = none := by simp [hbad]
    have hshape : Misshapen .lambda [.list (before.map (Node.rename r) ++ bad.rename r ::
        later.map (Node.rename r)) mark, body.rename r] span _ _ :=
      .parameter hnames hwrong
    exact ⟨_, .parameter, by simpa using hshape⟩

theorem Eval.parameters_relabel {ns : List Node} {names : List String}
    (h : parameters ns = .ok names) :
    parameters ((ns.map (Node.rename r)).map (Node.respan g)) = .ok (names.map r) := by
  rw [parameters_eq_ok_iff] at h ⊢
  have hmapped := congrArg (List.map (Option.map r)) h
  simpa [Function.comp_def] using hmapped

/-- The node with `r` applied to each name and `g` to each span. -/
def Node.relabel (r : String → String) (g : Span → Span) (node : Node) : Node :=
  (node.rename r).respan g

/-- New names and spans have no influence on what is alike in the nodes of a class.  The class has
the operands of its nodes, and their heads unless these are keywords. -/
structure Node.Likeness.Keeps (like : Likeness) (Class : Node → Prop) (r : String → String)
    (g : Span → Span) : Prop where
  keys : ∀ name, Keyword.ofName? (r name) = Keyword.ofName? name
  head : ∀ {head operands span}, Class (.list (head :: operands) span) →
    Eval.keyword? head = none → Class head
  operands : ∀ {head operands span}, Class (.list (head :: operands) span) →
    ∀ operand ∈ operands, Class operand
  spans : ∀ span, like.spans span (g span)
  names : ∀ {name span}, Class (.symbol name span) → like.names name (r name)
  nodes : ∀ {node}, Class node → like.nodes node (node.relabel r g)
  lambdas : ∀ {ns mark names body}, Class (.list ns mark) → Class body →
    Eval.parameters ns = .ok names → like.lambdas names body (names.map r) (body.relabel r g)
  errors : ∀ {keyword complaint objection span}, Complaint.Renamed r complaint objection →
    like.errors ⟨.malformed keyword complaint, span⟩ ⟨.malformed keyword objection, g span⟩

namespace Node.Likeness.Keeps

variable {like : Likeness} {Class : Node → Prop} {head : Node} {operands : List Node} {span : Span}
  (h : like.Keeps Class r g)

include h

theorem keyword?_relabel (node : Node) : Eval.keyword? (node.relabel r g) = Eval.keyword? node := by
  rw [relabel, Eval.keyword?_respan, Eval.keyword?_rename h.keys]

theorem forall₂_operands (hclass : ∀ operand ∈ operands, Class operand) :
    List.Forall₂ like.nodes operands (operands.map (relabel r g)) :=
  List.forall₂_map_right_iff.mpr (List.forall₂_same.mpr fun n hn => h.nodes (hclass n hn))

theorem matches_misshapen {keyword : Keyword} {complaint : Complaint} {place : Span}
    (hkey : Eval.keyword? head = some keyword)
    (hshape : Misshapen keyword operands span complaint place) :
    Node.Matches like (.list (head :: operands) span)
      (.list (head.relabel r g :: operands.map (relabel r g)) (g span)) := by
  obtain ⟨objection, hrenamed, hwrong⟩ := hshape.rename (r := r)
  have hothers : Misshapen keyword (operands.map (relabel r g)) (g span) objection (g place) := by
    have hmapped := hwrong.respan (g := g)
    rw [List.map_map] at hmapped
    exact hmapped
  exact .misshapen hkey (by rw [h.keyword?_relabel, hkey]) hshape hothers (h.errors hrenamed)

theorem matches_binding {keyword : Keyword} (hkey : Eval.keyword? head = some keyword)
    (hbinds : keyword = .define ∨ keyword = .set)
    (hclass : ∀ operand ∈ operands, Class operand) :
    Node.Matches like (.list (head :: operands) span)
      (.list (head.relabel r g :: operands.map (relabel r g)) (g span)) := by
  cases hparts : Eval.binding operands with
  | error complaint =>
    exact h.matches_misshapen hkey (Eval.misshapen_of_binding hbinds hparts span)
  | ok parts =>
    obtain ⟨name, mark, value⟩ := parts
    obtain rfl := Eval.binding_eq_ok hparts
    have hname := h.names (hclass (.symbol name mark) List.mem_cons_self)
    have hvalue := h.nodes (hclass value (by simp))
    have hsymbol : (symbol name mark).relabel r g = .symbol (r name) (g mark) := by simp [relabel]
    rw [List.map_cons, hsymbol]
    exact .binding hkey (by rw [h.keyword?_relabel, hkey]) hbinds (h.spans mark) hname hvalue

theorem matches_branches (hkey : Eval.keyword? head = some .if)
    (hclass : ∀ operand ∈ operands, Class operand) :
    Node.Matches like (.list (head :: operands) span)
      (.list (head.relabel r g :: operands.map (relabel r g)) (g span)) := by
  match operands, hclass with
  | [condition, consequent, alternate], hclass =>
    exact .branches hkey (by rw [h.keyword?_relabel, hkey]) (h.nodes (hclass _ (by simp)))
      (h.nodes (hclass _ (by simp))) (h.nodes (hclass _ (by simp)))
  | [], _ | [_], _ | [_, _], _ | _ :: _ :: _ :: _ :: _, _ =>
    exact h.matches_misshapen hkey (.parts (by simp))

theorem matches_lambda (hkey : Eval.keyword? head = some .lambda)
    (hclass : ∀ operand ∈ operands, Class operand) :
    Node.Matches like (.list (head :: operands) span)
      (.list (head.relabel r g :: operands.map (relabel r g)) (g span)) := by
  match operands, hclass with
  | [.list ns mark, body], hclass =>
    cases hparameters : Eval.parameters ns with
    | ok names =>
      have hlambda := h.lambdas (hclass (.list ns mark) List.mem_cons_self)
        (hclass body (by simp)) hparameters
      have hlist : (list ns mark).relabel r g =
          .list ((ns.map (rename r)).map (respan g)) (g mark) := by simp [relabel]
      rw [List.map_cons, hlist]
      exact .lambda hkey (by rw [h.keyword?_relabel, hkey]) hparameters
        (Eval.parameters_relabel hparameters) hlambda
    | error fault =>
      obtain ⟨before, bad, later, rfl, hbefore, hbad, -, -⟩ :=
        Eval.exists_of_parameters_eq_error hparameters
      exact h.matches_misshapen hkey (.parameter hbefore hbad)
  | [], _ | [_], _ | _ :: _ :: _ :: _, _ | [.number _ _, _], _ | [.symbol _ _, _], _ =>
    exact h.matches_misshapen hkey (.parameters (by simp))

/-- A node of the class has the rule of the node with new names and spans. -/
theorem matches_relabel {node : Node} (hclass : Class node) :
    Node.Matches like node (node.relabel r g) := by
  match node with
  | .number _ _ =>
    rw [relabel, rename_number, respan_number]
    exact .number
  | .symbol name _ =>
    rw [relabel, rename_symbol, respan_symbol]
    exact .symbol (h.spans _) (h.names hclass)
  | .list [] _ =>
    rw [relabel, rename_list, respan_list]
    exact .empty (h.spans _)
  | .list (head :: operands) span =>
    have hoperands := h.operands hclass
    have hlist : (list (head :: operands) span).relabel r g =
        .list (head.relabel r g :: operands.map (relabel r g)) (g span) := by
      simp [relabel, Function.comp_def]
    rw [hlist]
    cases hkey : Eval.keyword? head with
    | none =>
      refine .application hkey (by rw [h.keyword?_relabel, hkey]) (h.spans _) ?_
        (h.nodes (h.head hclass hkey)) (h.forall₂_operands hoperands)
      rw [relabel, span_respan, span_rename]
      exact h.spans _
    | some keyword =>
      have hother : Eval.keyword? (head.relabel r g) = some keyword := by
        rw [h.keyword?_relabel, hkey]
      cases keyword with
      | define => exact h.matches_binding hkey (.inl rfl) hoperands
      | set => exact h.matches_binding hkey (.inr rfl) hoperands
      | «if» => exact h.matches_branches hkey hoperands
      | or => exact .operands hkey hother (.inl rfl) (h.forall₂_operands hoperands)
      | and => exact .operands hkey hother (.inr rfl) (h.forall₂_operands hoperands)
      | lambda => exact h.matches_lambda hkey hoperands

end Node.Likeness.Keeps

@[simp] theorem Node.relabel_id (node : Node) : node.relabel id g = node.respan g := by
  rw [relabel, rename_id]

/-- If spans have no influence on what is alike, then a node with other spans has the rule of the
node itself. -/
theorem Node.matches_respan {like : Likeness} (hspans : ∀ span, like.spans span (g span))
    (hnames : ∀ name, like.names name name) (hnodes : ∀ node, like.nodes node (node.respan g))
    (hlambdas : ∀ names body, like.lambdas names body names (body.respan g))
    (herrors : ∀ fault span, like.errors ⟨fault, span⟩ ⟨fault, g span⟩) (node : Node) :
    Node.Matches like node (node.respan g) := by
  have hkeeps : like.Keeps (fun _ => True) id g := {
    keys := fun _ => rfl
    head := fun _ _ => trivial
    operands := fun _ _ _ => trivial
    spans := hspans
    names := fun _ => hnames _
    nodes := fun _ => by simpa using hnodes _
    lambdas := fun _ _ _ => by simpa using hlambdas _ _
    errors := fun hrenamed => by rw [hrenamed.eq]; exact herrors _ _ }
  have hmatches : Node.Matches like node (node.relabel id g) := hkeeps.matches_relabel trivial
  rwa [Node.relabel_id] at hmatches

end Relabel

/-- Every node has the rule of itself. -/
theorem Node.matches_refl {like : Likeness} (hspans : ∀ span, like.spans span span)
    (hnames : ∀ name, like.names name name) (hnodes : ∀ node, like.nodes node node)
    (hlambdas : ∀ names body, like.lambdas names body names body)
    (herrors : ∀ error, like.errors error error) (node : Node) : Node.Matches like node node := by
  have hsame : ∀ node : Node, node.respan id = node := fun _ => respan_id
  have h := matches_respan (g := id) hspans hnames (fun n => (hsame n).symm ▸ hnodes n)
    (fun names body => (hsame body).symm ▸ hlambdas names body)
    (fun fault span => herrors ⟨fault, span⟩) node
  rwa [hsame] at h

/-! ## Simulations -/

/-- What corresponds in two runs, and how the primitive steps keep it.  A name belongs to a frame
here: the scope where it is looked up, or its owner. -/
structure Simulation (World : Type) [Preorder World] where
  Stores : World → Store → Store → Prop
  Closures : World → Closure → Closure → Prop
  Names : World → Nat → String → Nat → String → Prop
  Nodes : World → Nat → Node → Nat → Node → Prop
  /-- The parameters and the body of a `lambda` form, in a frame of each run. -/
  Lambdas : World → Nat → List String → Node → Nat → List String → Node → Prop
  Spans : Span → Span → Prop
  Errors : EvalError → EvalError → Prop
  -- What corresponds goes on to correspond.
  closures_mono : ∀ {w v c d}, w ≤ v → Closures w c d → Closures v c d
  names_mono : ∀ {w v f a g b}, w ≤ v → Names w f a g b → Names v f a g b
  nodes_mono : ∀ {w v f n g m}, w ≤ v → Nodes w f n g m → Nodes v f n g m
  errors_same : ∀ {span place} fault, Spans span place → Errors ⟨fault, span⟩ ⟨fault, place⟩
  errors_unbound : ∀ {w f a g b span place}, Spans span place → Names w f a g b →
    Errors ⟨.unboundName a, span⟩ ⟨.unboundName b, place⟩
  nodes_matches : ∀ {w f n g m}, Nodes w f n g m → Node.Matches
    { spans := Spans
      names := fun a b => Names w f a g b
      nodes := fun n m => Nodes w f n g m
      lambdas := fun names body others code => Lambdas w f names body g others code
      errors := Errors } n m
  length_eq : ∀ {w c d}, Closures w c d → c.parameters.length = d.parameters.length
  -- Names are found and bound alike.
  find? : ∀ {w S T f a g b}, Stores w S T → Names w f a g b →
    Option.Rel (fun owner other => Names w owner a other b) (S.find? f a) (T.find? g b)
  get? : ∀ {w S T f a g b}, Stores w S T → Names w f a g b →
    Option.Rel (Value.Related (Closures w)) (S.get? f a) (T.get? g b)
  set : ∀ {w S T f a g b x y}, Stores w S T → Names w f a g b → Value.Related (Closures w) x y →
    Stores w (S.set f a x) (T.set g b y)
  -- Closures are made alike, and so are the frames of their calls.
  made : ∀ {w S T f names body g others code}, Stores w S T →
    Lambdas w f names body g others code →
    Closures w ⟨S.closures, names, body, f⟩ ⟨T.closures, others, code, g⟩
  count : ∀ {w S T}, Stores w S T →
    Stores w { S with closures := S.closures + 1 } { T with closures := T.closures + 1 }
  enter : ∀ {w S T c d xs ys}, Stores w S T → Closures w c d →
    List.Forall₂ (Value.Related (Closures w)) xs ys → xs.length = c.parameters.length →
    ∃ v, w ≤ v ∧
      Stores v (S.push ⟨some c.frame, Bindings.ofPairs (c.parameters.zip xs)⟩)
        (T.push ⟨some d.frame, Bindings.ofPairs (d.parameters.zip ys)⟩) ∧
      Nodes v S.nextFrame c.body T.nextFrame d.body

namespace Simulation

variable {World : Type} [Preorder World] (sim : Simulation World)
  {α β γ δ : Type}

/-- Values that correspond. -/
def Values (w : World) : Value → Value → Prop :=
  Value.Related (sim.Closures w)

/-- Answers that correspond, in a world in which at least as much corresponds as in `w`. -/
inductive Answers (w : World) (R : World → α → β → Prop) :
    Except EvalError α × Store → Except EvalError β × Store → Prop where
  | value {v a b S T} (hle : w ≤ v) (hstores : sim.Stores v S T) (h : R v a b) :
      Answers w R (.ok a, S) (.ok b, T)
  | error {v e e' S T} (hle : w ≤ v) (hstores : sim.Stores v S T) (h : sim.Errors e e') :
      Answers w R (.error e, S) (.error e', T)

/-- On stores that correspond, both evaluations give answers that correspond, or both give
none. -/
def Relates (w : World) (R : World → α → β → Prop) (first : Evaluation α)
    (second : Evaluation β) : Prop :=
  ∀ S T, sim.Stores w S T → Option.Rel (sim.Answers w R) (first S) (second T)

variable {sim} {w v : World} {R : World → α → β → Prop} {Q : World → γ → δ → Prop}

theorem Answers.mono (hle : w ≤ v) {p : Except EvalError α × Store}
    {q : Except EvalError β × Store} (h : sim.Answers v R p q) : sim.Answers w R p q := by
  cases h with
  | value hle' hstores h => exact .value (le_trans hle hle') hstores h
  | error hle' hstores h => exact .error (le_trans hle hle') hstores h

theorem Answers.rel_mono (hle : w ≤ v) {p : Option (Except EvalError α × Store)}
    {q : Option (Except EvalError β × Store)} (h : Option.Rel (sim.Answers v R) p q) :
    Option.Rel (sim.Answers w R) p q := by
  cases h with
  | none => exact .none
  | some h => exact .some (h.mono hle)

theorem Values.mono (hle : w ≤ v) {x y : Value} (h : sim.Values w x y) : sim.Values v x y :=
  Value.Related.mono h fun _ _ => sim.closures_mono hle

theorem forall₂_nodes_mono {f g : Nat} (hle : w ≤ v) {ns ms : List Node}
    (h : List.Forall₂ (fun n m => sim.Nodes w f n g m) ns ms) :
    List.Forall₂ (fun n m => sim.Nodes v f n g m) ns ms :=
  h.imp fun _ _ => sim.nodes_mono hle

/-! ## Evaluations put together -/

theorem relates_outOfDepth : sim.Relates w R outOfDepth outOfDepth := fun _ _ _ => .none

theorem relates_pure {a : α} {b : β} (h : R w a b) : sim.Relates w R (pure a) (pure b) :=
  fun _ _ hstores => .some (.value le_rfl hstores h)

theorem relates_fail {fault other : Fault} {span place : Span}
    (h : sim.Errors ⟨fault, span⟩ ⟨other, place⟩) :
    sim.Relates w R (fail fault span) (fail other place) :=
  fun _ _ hstores => .some (.error le_rfl hstores h)

theorem relates_get : sim.Relates w sim.Stores get get :=
  fun _ _ hstores => .some (.value le_rfl hstores hstores)

theorem relates_modify {first second : Store → Store}
    (h : ∀ S T, sim.Stores w S T → sim.Stores w (first S) (second T)) :
    sim.Relates w (fun _ _ _ => True) (modify first) (modify second) :=
  fun S T hstores => .some (.value le_rfl (h S T hstores) trivial)

theorem relates_modifyGet {first : Store → α × Store} {second : Store → β × Store}
    (h : ∀ S T, sim.Stores w S T → ∃ v, w ≤ v ∧ sim.Stores v (first S).2 (second T).2 ∧
      R v (first S).1 (second T).1) :
    sim.Relates w R (modifyGet first) (modifyGet second) := by
  intro S T hstores
  obtain ⟨v, hle, hafter, hresult⟩ := h S T hstores
  exact .some (.value hle hafter hresult)

theorem relates_ofExcept {result other : Except Fault Value} {span place : Span}
    (hspan : sim.Spans span place) (h : Value.RelatedResult (sim.Closures w) result other) :
    sim.Relates w sim.Values (ofExcept span result) (ofExcept place other) := by
  cases h with
  | fault => exact relates_fail (sim.errors_same _ hspan)
  | value h => exact relates_pure h

/-- The second parts of two sequences begin in a world in which more may correspond. -/
theorem Relates.bind {first : Evaluation α} {second : Evaluation β} {next : α → Evaluation γ}
    {later : β → Evaluation δ} (hfirst : sim.Relates w R first second)
    (hnext : ∀ v, w ≤ v → ∀ a b, R v a b → sim.Relates v Q (next a) (later b)) :
    sim.Relates w Q (first >>= next) (second >>= later) := by
  intro S T hstores
  rw [bind_apply, bind_apply]
  match first S, second T, hfirst S T hstores with
  | none, none, .none => exact .none
  | some _, some _, .some (.error hle hafter herror) => exact .some (.error hle hafter herror)
  | some _, some _, .some (.value hle hafter h) =>
    exact Answers.rel_mono hle (hnext _ hle _ _ h _ _ hafter)

/-! ## Rules -/

section Rules

open Eval

/-- Nodes that correspond are evaluated alike. -/
def Agrees (sim : Simulation World) (first second : Nat → Node → Evaluation Value) : Prop :=
  ∀ {w f n g m}, sim.Nodes w f n g m → sim.Relates w sim.Values (first f n) (second g m)

variable {first second : Nat → Node → Evaluation Value} (hrecur : sim.Agrees first second)
  {f g : Nat}

include hrecur

theorem each_relates {ns ms : List Node}
    (h : List.Forall₂ (fun n m => sim.Nodes w f n g m) ns ms) :
    sim.Relates w (fun w => List.Forall₂ (sim.Values w)) (each first f ns) (each second g ms) := by
  induction ns generalizing ms w with
  | nil =>
    cases h
    exact relates_pure .nil
  | cons n rest ih =>
    cases h with
    | cons hnode hrest =>
      refine (hrecur hnode).bind fun v hle x y hvalue => ?_
      refine (ih (forall₂_nodes_mono hle hrest)).bind fun u hle xs ys hvalues => ?_
      exact relates_pure (.cons (Values.mono hle hvalue) hvalues)

theorem firstTrue_relates {ns ms : List Node}
    (h : List.Forall₂ (fun n m => sim.Nodes w f n g m) ns ms) :
    sim.Relates w sim.Values (firstTrue first f ns) (firstTrue second g ms) := by
  induction ns generalizing ms w with
  | nil =>
    cases h
    exact relates_pure .number
  | cons n rest ih =>
    cases h with
    | cons hnode hrest =>
      refine (hrecur hnode).bind fun v hle x y hvalue => ?_
      rw [hvalue.isTruthy_eq]
      split
      · exact relates_pure hvalue
      · exact ih (forall₂_nodes_mono hle hrest)

theorem allTrue_relates {ns ms : List Node} {x y : Value} (hlast : sim.Values w x y)
    (h : List.Forall₂ (fun n m => sim.Nodes w f n g m) ns ms) :
    sim.Relates w sim.Values (allTrue first f x ns) (allTrue second g y ms) := by
  induction ns generalizing ms x y w with
  | nil =>
    cases h
    exact relates_pure hlast
  | cons n rest ih =>
    cases h with
    | cons hnode hrest =>
      refine (hrecur hnode).bind fun v hle x y hvalue => ?_
      rw [hvalue.isTruthy_eq]
      split
      · exact ih hvalue (forall₂_nodes_mono hle hrest)
      · exact relates_pure hvalue

theorem define_relates {a b : String} {n m : Node} (hname : sim.Names w f a g b)
    (hnode : sim.Nodes w f n g m) (mark spot span place : Span) :
    sim.Relates w sim.Values (define first f [.symbol a mark, n] span)
      (define second g [.symbol b spot, m] place) := by
  refine (hrecur hnode).bind fun v hle x y hvalue => ?_
  refine (relates_modify fun S T hstores => ?_).bind fun u hle _ _ _ => ?_
  · exact sim.set hstores (sim.names_mono hle hname) hvalue
  · exact relates_pure (Values.mono hle hvalue)

theorem assign_relates {a b : String} {n m : Node} (hname : sim.Names w f a g b)
    (hnode : sim.Nodes w f n g m) {mark spot : Span} (hmark : sim.Spans mark spot)
    (span place : Span) :
    sim.Relates w sim.Values (assign first f [.symbol a mark, n] span)
      (assign second g [.symbol b spot, m] place) := by
  refine relates_get.bind fun v hle S T hstores => ?_
  have hscope := sim.names_mono hle hname
  match S.find? f a, T.find? g b, sim.find? hstores hscope with
  | none, none, .none => exact relates_fail (sim.errors_unbound hmark hscope)
  | some owner, some other, .some howner =>
    refine (hrecur (sim.nodes_mono hle hnode)).bind fun u hle x y hvalue => ?_
    refine (relates_modify fun S T hstores => ?_).bind fun u hle _ _ _ => ?_
    · exact sim.set hstores (sim.names_mono hle howner) hvalue
    · exact relates_pure (Values.mono hle hvalue)

theorem choose_relates {condition consequent alternate check yes no : Node}
    (hcondition : sim.Nodes w f condition g check) (hconsequent : sim.Nodes w f consequent g yes)
    (halternate : sim.Nodes w f alternate g no) (span place : Span) :
    sim.Relates w sim.Values (choose first f [condition, consequent, alternate] span)
      (choose second g [check, yes, no] place) := by
  refine (hrecur hcondition).bind fun v hle x y hvalue => ?_
  have hyes := sim.nodes_mono hle hconsequent
  have hno := sim.nodes_mono hle halternate
  cases hvalue with
  | number =>
    dsimp only
    split
    · exact hrecur hyes
    · exact hrecur hno
  | procedure => exact hrecur hno

theorem apply_relates_of_agrees {p q : Procedure} {xs ys : List Value}
    (hprocedure : p.Related (sim.Closures w) q) (h : List.Forall₂ (sim.Values w) xs ys)
    {span place : Span} (hspan : sim.Spans span place) :
    sim.Relates w sim.Values (Eval.apply first p xs span) (Eval.apply second q ys place) := by
  cases hprocedure with
  | builtin => exact relates_ofExcept hspan (Builtin.call_related h)
  | @closure c d hclosure =>
    simp only [Eval.apply, callClosure, ← h.length_eq, ← sim.length_eq hclosure]
    split
    · rename_i hcount
      refine Relates.bind (R := fun w f g => sim.Nodes w f c.body g d.body)
        (relates_modifyGet fun S T hstores => ?_) fun u _ _ _ hbody => hrecur hbody
      exact sim.enter hstores hclosure h hcount
    · exact relates_fail (sim.errors_same _ hspan)

theorem application_relates {head other : Node} {ns ms : List Node}
    (hhead : sim.Nodes w f head g other) (hplace : sim.Spans head.span other.span)
    (hoperands : List.Forall₂ (fun n m => sim.Nodes w f n g m) ns ms) {span place : Span}
    (hspan : sim.Spans span place) :
    sim.Relates w sim.Values (application first f head ns span)
      (application second g other ms place) := by
  refine (hrecur hhead).bind fun v hle x y hvalue => ?_
  cases hvalue with
  | number => exact relates_fail (sim.errors_same _ hplace)
  | procedure hprocedure =>
    refine (each_relates hrecur (forall₂_nodes_mono hle hoperands)).bind
      fun u hle xs ys hvalues => apply_relates_of_agrees hrecur ?_ hvalues hspan
    cases hprocedure with
    | builtin => exact .builtin
    | closure h => exact .closure (sim.closures_mono hle h)

omit hrecur

theorem lookup?_relates {S T : Store} (hstores : sim.Stores w S T) {a b : String}
    (hname : sim.Names w f a g b) : Option.Rel (sim.Values w) (S.lookup? f a) (T.lookup? g b) := by
  rw [Store.lookup?, Store.lookup?]
  match S.find? f a, T.find? g b, sim.find? hstores hname with
  | none, none, .none => exact .none
  | some _, some _, .some howner => exact sim.get? hstores howner

theorem symbolValue_relates {a b : String} (hname : sim.Names w f a g b) {span place : Span}
    (hspan : sim.Spans span place) :
    sim.Relates w sim.Values (symbolValue f a span) (symbolValue g b place) := by
  refine relates_get.bind fun v hle S T hstores => ?_
  have hscope := sim.names_mono hle hname
  match S.lookup? f a, T.lookup? g b, lookup?_relates hstores hscope with
  | none, none, .none => exact relates_fail (sim.errors_unbound hspan hscope)
  | some x, some y, .some hvalue => exact relates_pure hvalue

theorem makeClosure_relates {names others : List String} {body code : Node}
    (h : sim.Lambdas w f names body g others code) :
    sim.Relates w sim.Values (makeClosure f names body) (makeClosure g others code) := by
  refine relates_modifyGet fun S T hstores => ⟨w, le_rfl, sim.count hstores, ?_⟩
  exact .procedure (.closure (sim.made hstores h))

include hrecur

/-- If the parts of nodes are evaluated alike, then so are the nodes. -/
theorem step_relates {n m : Node} (h : sim.Nodes w f n g m) :
    sim.Relates w sim.Values (step first f n) (step second g m) := by
  cases sim.nodes_matches h with
  | number => exact relates_pure .number
  | symbol hspan hname => exact symbolValue_relates hname hspan
  | empty hspan => exact relates_fail (sim.errors_same _ hspan)
  | application hkey hother hspan hplace hhead hoperands =>
    simp only [step, hkey, hother]
    exact application_relates hrecur hhead hplace hoperands hspan
  | binding hkey hother hbinds hmark hname hnode =>
    simp only [step, hkey, hother, specialForm]
    rcases hbinds with rfl | rfl
    · exact define_relates hrecur hname hnode _ _ _ _
    · exact assign_relates hrecur hname hnode hmark _ _
  | branches hkey hother hcondition hconsequent halternate =>
    simp only [step, hkey, hother, specialForm]
    exact choose_relates hrecur hcondition hconsequent halternate _ _
  | operands hkey hother htests hoperands =>
    simp only [step, hkey, hother, specialForm]
    rcases htests with rfl | rfl
    · exact firstTrue_relates hrecur hoperands
    · exact allTrue_relates hrecur .number hoperands
  | lambda hkey hother hparameters hformals hlambda =>
    simp only [step, hkey, hother, specialForm, lambda, hparameters, hformals]
    exact makeClosure_relates hlambda
  | misshapen hkey hother hshape hwrong herror =>
    simp only [step, hkey, hother]
    intro S T hstores
    rw [specialForm_of_misshapen hshape, specialForm_of_misshapen hwrong]
    exact .some (.error le_rfl hstores herror)

end Rules

/-! ## Evaluations -/

/-- Nodes that correspond are evaluated alike, at any depth. -/
theorem agrees_eval (depth : Nat) : sim.Agrees (eval depth) (eval depth) := by
  induction depth with
  | zero => exact fun _ => relates_outOfDepth
  | succ depth ih => exact step_relates ih

theorem eval_relates (depth : Nat) {f g : Nat} {n m : Node} (h : sim.Nodes w f n g m) :
    sim.Relates w sim.Values (eval depth f n) (eval depth g m) :=
  agrees_eval depth h

theorem apply_relates (depth : Nat) {p q : Procedure} {xs ys : List Value}
    (hprocedure : p.Related (sim.Closures w) q) (h : List.Forall₂ (sim.Values w) xs ys)
    {span place : Span} (hspan : sim.Spans span place) :
    sim.Relates w sim.Values (apply depth p xs span) (apply depth q ys place) :=
  apply_relates_of_agrees (agrees_eval depth) hprocedure h hspan

theorem evalForms_relates (depth : Nat) {f g : Nat} {x y : Option Value}
    (hlast : Option.Rel (sim.Values w) x y) {ns ms : List Node}
    (h : List.Forall₂ (fun n m => sim.Nodes w f n g m) ns ms) :
    sim.Relates w (fun w => Option.Rel (sim.Values w)) (evalForms depth f x ns)
      (evalForms depth g y ms) := by
  induction ns generalizing ms x y w with
  | nil =>
    cases h
    exact relates_pure hlast
  | cons n rest ih =>
    cases h with
    | cons hnode hrest =>
      refine (eval_relates depth hnode).bind fun v hle x y hvalue => ?_
      exact ih (.some hvalue) (forall₂_nodes_mono hle hrest)

end Simulation
end TinyLisp
