import TinyLisp.Proofs.Builtins
import TinyLisp.Proofs.Nodes
import TinyLisp.Proofs.Sessions

/-!
# Where errors come from

An evaluation that fails blames a node: the error has the span of that node, and the fault is
one that the node can have.  The node was read from a text, perhaps from one that was evaluated
long before, since a closure keeps the body that it was written with.

* `Fault.Blames` says which nodes can have a fault.
* `Origin known P` says that the closures with the property `P` have bodies among the nodes
  that are known, and that known forms make such closures only.
* `Derives.keeps`: from known nodes and closures of that kind, every evaluation keeps what binding
  known names and calling such closures keep, and every error blames a node that is known.
* `Derives.traced`: what is kept first of all is that all closures are of that kind.
* `Session.Reads` are the nodes of a text, and the theorem at the end is about whole sessions.
-/

namespace TinyLisp

/-! ## Faults -/

/-- A node can have a fault.  For an operator and for a parameter, the list around it matters;
it has to be known. -/
inductive Fault.Blames (known : Node → Prop) : Fault → Node → Prop where
  | unboundName {name span} : Blames known (.unboundName name) (.symbol name span)
  | emptyApplication {span} : Blames known .emptyApplication (.list [] span)
  | notCallable {x head operands span} (hlist : known (.list (head :: operands) span))
      (hkey : Eval.keyword? head = none) : Blames known (.notCallable x) head
  | arityMismatch {callee expected head operands span} (hkey : Eval.keyword? head = none)
      (hcount : expected ≠ operands.length) :
      Blames known (.arityMismatch callee expected operands.length) (.list (head :: operands) span)
  | typeMismatch {builtin position kind head operands span} (hkey : Eval.keyword? head = none)
      (hkind : kind = .builtin ∨ kind = .lambda)
      (hposition : 1 ≤ position ∧ position ≤ operands.length) :
      Blames known (.typeMismatch builtin position kind) (.list (head :: operands) span)
  | divisionByZero {builtin head operands span} (hkey : Eval.keyword? head = none)
      (hbuiltin : builtin = .divide ∨ builtin = .remainder) :
      Blames known (.divisionByZero builtin) (.list (head :: operands) span)
  | malformed {keyword complaint head operands span} (hkey : Eval.keyword? head = some keyword)
      (hshape : Misshapen keyword operands span complaint span) :
      Blames known (.malformed keyword complaint) (.list (head :: operands) span)
  | parameter {node head nodes place body span}
      (hlist : known (.list [head, .list nodes place, body] span))
      (hkey : Eval.keyword? head = some .lambda) (hmem : node ∈ nodes)
      (hname : node.name? = none) :
      Blames known (.malformed .lambda (.badParameter node.render)) node

/-! ## Closures and their bodies -/

/-- The parts of known nodes are known, the closures with the property have bodies that are
known, and `lambda` forms that are known make closures with the property. -/
structure Origin (known : Node → Prop) (P : Closure → Prop) : Prop where
  child : ∀ {children span child}, known (.list children span) → child ∈ children → known child
  body : ∀ {closure}, P closure → known closure.body
  made : ∀ {head nodes place body span names identity frame},
    known (.list [head, .list nodes place, body] span) → Eval.keyword? head = some .lambda →
    nodes.map Node.name? = names.map some → P ⟨identity, names, body, frame⟩

/-- The node is known, or it is what is left of a known form when some operands of `or` or
`and` are done with. -/
inductive Due (known : Node → Prop) : Node → Prop where
  | known {node} (h : known node) : Due known node
  | rest {head operands span}
      (hkey : Eval.keyword? head = some .or ∨ Eval.keyword? head = some .and)
      (hoperands : ∀ operand ∈ operands, known operand) : Due known (.list (head :: operands) span)

/-- A known application with this span has so many operands. -/
def Applies (known : Node → Prop) (span : Span) (count : Nat) : Prop :=
  ∃ head operands, known (.list (head :: operands) span) ∧ Eval.keyword? head = none ∧
    operands.length = count

/-- The nodes of a task are known, and its closures have the property. -/
def Task.From (known : Node → Prop) (P : Closure → Prop) : Task → Prop
  | .node _ n => Due known n
  | .operands _ procedure values rest span =>
    procedure.ForClosures P ∧ (∀ value ∈ values, value.ForClosures P) ∧
      (∀ node ∈ rest, known node) ∧ Applies known span (values.length + rest.length)
  | .call procedure arguments span =>
    procedure.ForClosures P ∧ (∀ value ∈ arguments, value.ForClosures P) ∧
      Applies known span arguments.length

/-- A closure that is given has the property, and an error blames a known node. -/
def Traced (known : Node → Prop) (P : Closure → Prop) : Except EvalError Value → Prop
  | .ok value => value.ForClosures P
  | .error error => ∃ node, known node ∧ node.span = error.span ∧ error.fault.Blames known node

section Known

variable {known : Node → Prop} {P : Closure → Prop} {head : Node} {operands : List Node}
  {span : Span}

theorem Due.operand (h : Due known (.list (head :: operands) span)) (horigin : Origin known P)
    {operand : Node} (hmem : operand ∈ operands) : known operand := by
  cases h with
  | known h => exact horigin.child h (List.mem_cons_of_mem _ hmem)
  | rest _ hoperands => exact hoperands operand hmem

/-- Only the forms of `or` and `and` are evaluated bit by bit. -/
theorem Due.of_keyword (h : Due known (.list (head :: operands) span))
    (hor : Eval.keyword? head ≠ some .or) (hand : Eval.keyword? head ≠ some .and) :
    known (.list (head :: operands) span) := by
  cases h with
  | known h => exact h
  | rest hkey => exact absurd hkey (by simp [hor, hand])

theorem Due.drop (h : Due known (.list (head :: operands) span)) (horigin : Origin known P)
    (hkey : Eval.keyword? head = some .or ∨ Eval.keyword? head = some .and)
    {rest : List Node} (hrest : rest ⊆ operands) : Due known (.list (head :: rest) span) :=
  .rest hkey fun _ hmem => h.operand horigin (hrest hmem)

/-- The operands of `or` and `and` have no shape that is refused. -/
theorem Misshapen.keyword_ne {keyword : Keyword} {complaint : Complaint} {place : Span}
    (h : Misshapen keyword operands span complaint place) : keyword ≠ .or ∧ keyword ≠ .and := by
  cases h with
  | name hbinds | binding hbinds => rcases hbinds with rfl | rfl <;> simp
  | parts | parameters | parameter => simp

/-- A form that is refused is to blame, or one of its parameters is. -/
theorem Due.blames_of_misshapen (h : Due known (.list (head :: operands) span))
    (horigin : Origin known P) {keyword : Keyword} {complaint : Complaint} {place : Span}
    (hkey : Eval.keyword? head = some keyword)
    (hshape : Misshapen keyword operands span complaint place) :
    ∃ node, known node ∧ node.span = place ∧
      (Fault.malformed keyword complaint).Blames known node := by
  have hne := hshape.keyword_ne
  have hknown := h.of_keyword (by simpa [hkey] using hne.1) (by simpa [hkey] using hne.2)
  cases hshape with
  | name hbinds htarget => exact ⟨_, hknown, rfl, .malformed hkey (.name hbinds htarget)⟩
  | binding hbinds hcount => exact ⟨_, hknown, rfl, .malformed hkey (.binding hbinds hcount)⟩
  | parts hcount => exact ⟨_, hknown, rfl, .malformed hkey (.parts hcount)⟩
  | parameters hshape => exact ⟨_, hknown, rfl, .malformed hkey (.parameters hshape)⟩
  | @parameter before later bad body place span hbefore hbad =>
    have hmem : bad ∈ before ++ bad :: later := by simp
    have hlist := horigin.child hknown (List.mem_cons_of_mem _ List.mem_cons_self)
    exact ⟨bad, horigin.child hlist hmem, rfl, .parameter hknown hkey hmem hbad⟩

end Known

/-! ## Evaluations -/

/-- A property of stores with closures of a kind.  It stays when the name of a known symbol is
bound, when the frame of a call is added, and when a closure is counted. -/
structure Kept (known : Node → Prop) (P : Closure → Prop) (S : Store → Prop) : Prop where
  closures : ∀ {store}, S store → store.ForClosures P
  set : ∀ {store name span value}, S store → known (.symbol name span) → value.ForClosures P →
    ∀ frame, S (store.set frame name value)
  enter : ∀ {store closure values}, S store → P closure →
    (∀ value ∈ values, value.ForClosures P) →
    S (store.push ⟨some closure.frame, Bindings.ofPairs (closure.parameters.zip values)⟩)
  count : ∀ {store}, S store → ∀ closures, S { store with closures }

theorem kept_forClosures (known : Node → Prop) (P : Closure → Prop) :
    Kept known P (Store.ForClosures P) where
  closures := id
  set hstore _ hvalue frame := hstore.set frame _ hvalue
  enter hstore _ hvalues := hstore.enter hvalues
  count hstore _ := hstore

namespace Derives

variable {known : Node → Prop} {P : Closure → Prop} {S : Store → Prop} {store after : Store}
  {task : Task} {result : Except EvalError Value}

/-- Evaluations of known nodes keep a property of stores that binding known names and calling
closures keep, and their errors blame known nodes. -/
theorem keeps (horigin : Origin known P) (hkept : Kept known P S)
    (h : Derives store task result after) (hstore : S store) (htask : task.From known P) :
    S after ∧ Traced known P result := by
  induction h with
  | number | orNone | andNone => exact ⟨hstore, trivial⟩
  | symbol _ hvalue => exact ⟨hstore, hkept.closures hstore _ _ _ hvalue⟩
  | unbound =>
    cases htask with
    | known hknown => exact ⟨hstore, _, hknown, rfl, .unboundName⟩
  | empty =>
    cases htask with
    | known hknown => exact ⟨hstore, _, hknown, rfl, .emptyApplication⟩
  | misshapen hkey hshape => exact ⟨hstore, htask.blames_of_misshapen horigin hkey hshape⟩
  | define _ _ ih | assign _ _ _ ih =>
    obtain ⟨hafter, hvalue⟩ := ih hstore (.known (htask.operand horigin (by simp)))
    exact ⟨hkept.set hafter (htask.operand horigin List.mem_cons_self) hvalue _, hvalue⟩
  | defineFails _ _ ih | assignFails _ _ _ ih | conditionFails _ _ ih | orTrue _ _ _ ih
  | orFails _ _ ih | andLast _ _ ih | andFalse _ _ _ ih | andFails _ _ ih =>
    exact ih hstore (.known (htask.operand horigin (by simp)))
  | assignUnbound => exact ⟨hstore, _, htask.operand horigin (by simp), rfl, .unboundName⟩
  | consequent _ _ _ _ ih ih' | alternate _ _ _ _ ih ih' =>
    have hbetween := (ih hstore (.known (htask.operand horigin (by simp)))).1
    exact ih' hbetween (.known (htask.operand horigin (by simp)))
  | orFalse hkey _ _ _ ih ih' =>
    have hbetween := (ih hstore (.known (htask.operand horigin (by simp)))).1
    exact ih' hbetween (htask.drop horigin (.inl hkey) (List.subset_cons_self _ _))
  | andTrue hkey _ _ _ ih ih' =>
    have hbetween := (ih hstore (.known (htask.operand horigin (by simp)))).1
    exact ih' hbetween (htask.drop horigin (.inr hkey) (List.subset_cons_self _ _))
  | lambda hkey hnames =>
    have hknown := htask.of_keyword (by simp [hkey]) (by simp [hkey])
    exact ⟨hkept.count hstore _, horigin.made hknown hkey hnames⟩
  | application hkey _ _ ih ih' =>
    have hknown := htask.of_keyword (by simp [hkey]) (by simp [hkey])
    obtain ⟨hbetween, hprocedure⟩ :=
      ih hstore (.known (horigin.child hknown List.mem_cons_self))
    refine ih' hbetween ⟨hprocedure, by simp, fun _ => htask.operand horigin, ?_⟩
    exact ⟨_, _, hknown, hkey, by simp⟩
  | notCallable hkey _ ih =>
    have hknown := htask.of_keyword (by simp [hkey]) (by simp [hkey])
    have hhead := horigin.child hknown List.mem_cons_self
    exact ⟨(ih hstore (.known hhead)).1, _, hhead, rfl, .notCallable hknown hkey⟩
  | headFails hkey _ ih =>
    have hknown := htask.of_keyword (by simp [hkey]) (by simp [hkey])
    exact ih hstore (.known (horigin.child hknown List.mem_cons_self))
  | operand _ _ ih ih' =>
    obtain ⟨hprocedure, hvalues, hrest, happlies⟩ := htask
    obtain ⟨hbetween, hvalue⟩ := ih hstore (.known (hrest _ List.mem_cons_self))
    refine ih' hbetween ⟨hprocedure, Value.forClosures_append_singleton hvalues hvalue,
      fun _ hmem => hrest _ (List.mem_cons_of_mem _ hmem), ?_⟩
    simpa [Nat.add_assoc, Nat.add_comm 1] using happlies
  | operandFails _ ih => exact ih hstore (.known (htask.2.2.1 _ List.mem_cons_self))
  | operandsEnd _ ih => exact ih hstore ⟨htask.1, htask.2.1, htask.2.2.2⟩
  | builtinValue _ hvalue =>
    refine ⟨hstore, ?_⟩
    rcases Builtin.operate_eq_ok hvalue with ⟨x, rfl⟩ | hmem
    · trivial
    · exact htask.2.1 _ hmem
  | builtinFault hcount hfault =>
    obtain ⟨head, operands, hknown, hkey, hlength⟩ := htask.2.2
    refine ⟨hstore, _, hknown, rfl, ?_⟩
    rcases Builtin.operate_eq_error hcount hfault with ⟨position, p, hone, hle, rfl⟩ | ⟨rfl, hdivides⟩
    · exact .typeMismatch hkey (by cases p <;> simp [Procedure.kind]) ⟨hone, hlength ▸ hle⟩
    · exact .divisionByZero hkey hdivides
  | builtinArity _ hcount | closureArity hcount =>
    obtain ⟨head, operands, hknown, hkey, hlength⟩ := htask.2.2
    rw [← hlength] at hcount ⊢
    exact ⟨hstore, _, hknown, rfl, .arityMismatch hkey hcount.symm⟩
  | closure _ _ ih =>
    exact ih (hkept.enter hstore htask.1 htask.2.1) (.known (horigin.body htask.1))

/-- Evaluations of known nodes leave closures with the property behind, and their errors blame
known nodes. -/
theorem traced (horigin : Origin known P) (h : Derives store task result after)
    (hstore : store.ForClosures P) (htask : task.From known P) :
    after.ForClosures P ∧ Traced known P result :=
  h.keeps horigin (kept_forClosures known P) hstore htask

end Derives

/-! ## Sessions -/

namespace Session

/-- A node of a text: a form that can be read from it, or a part of one. -/
def Reads (text : String) (node : Node) : Prop :=
  ∃ form ∈ forms text, node.Part form

/-- A node of one of the texts. -/
def ReadFrom (texts : List String) (node : Node) : Prop :=
  ∃ text ∈ texts, Reads text node

variable {texts : List String} {text : String} {session after : Session}

theorem Reads.of_mem_forms {form : Node} (h : form ∈ forms text) : Reads text form :=
  ⟨form, h, .self⟩

theorem Reads.part {node part : Node} (h : Reads text node) (hpart : part.Part node) :
    Reads text part := by
  obtain ⟨form, hform, hnode⟩ := h
  exact ⟨form, hform, hpart.trans hnode⟩

theorem Reads.child {children : List Node} {span : Span} {child : Node}
    (h : Reads text (.list children span)) (hmem : child ∈ children) : Reads text child :=
  h.part (.of_mem hmem)

theorem ReadFrom.part {node part : Node} (h : ReadFrom texts node) (hpart : part.Part node) :
    ReadFrom texts part := by
  obtain ⟨text, hmem, hreads⟩ := h
  exact ⟨text, hmem, hreads.part hpart⟩

theorem ReadFrom.append {node : Node} (h : ReadFrom texts node) (more : List String) :
    ReadFrom (texts ++ more) node := by
  obtain ⟨text, hmem, hreads⟩ := h
  exact ⟨text, List.mem_append_left _ hmem, hreads⟩

theorem ReadFrom.last {node : Node} (h : Reads text node) : ReadFrom (texts ++ [text]) node :=
  ⟨text, List.mem_append_right _ (List.mem_singleton_self _), h⟩

/-- Closures whose bodies are nodes of the texts. -/
theorem origin_readFrom (texts : List String) :
    Origin (ReadFrom texts) fun closure => ReadFrom texts closure.body where
  child := fun hread hmem => hread.part (.of_mem hmem)
  body := id
  made := fun hread _ _ => hread.part (.of_mem (by simp))

/-- Every closure of a session that can be reached has a body that was read from one of the
texts. -/
theorem Reached.forClosures (h : Reached texts session) :
    session.store.ForClosures fun closure => ReadFrom texts closure.body := by
  induction h with
  | new => exact Store.ForClosures.empty.addGlobal
  | @eval texts session depth text result after h heval ih =>
    obtain ⟨answer, store, hforms, -, rfl⟩ := eval_eq_some_iff.mp heval
    have horigin := origin_readFrom (texts ++ [text])
    have hstore := ih.mono fun _ hread => hread.append [text]
    refine (evalForms_keeps (fun form hmem _ _ _ hstore hderives => ?_) h.hosts hstore hforms).1.2
    exact (hderives.traced horigin hstore (.known (.last (.of_mem_forms hmem)))).1

/-- What a node of the texts is blamed for, it is blamed for within its own text. -/
theorem exists_blames {fault : Fault} {node : Node} (h : fault.Blames (ReadFrom texts) node)
    (hnode : ReadFrom texts node) :
    ∃ source ∈ texts, Reads source node ∧ fault.Blames (Reads source) node := by
  obtain ⟨source, hmem, hreads⟩ := hnode
  cases h with
  | unboundName => exact ⟨source, hmem, hreads, .unboundName⟩
  | emptyApplication => exact ⟨source, hmem, hreads, .emptyApplication⟩
  | arityMismatch hkey hcount => exact ⟨source, hmem, hreads, .arityMismatch hkey hcount⟩
  | typeMismatch hkey hkind hposition =>
    exact ⟨source, hmem, hreads, .typeMismatch hkey hkind hposition⟩
  | divisionByZero hkey hbuiltin => exact ⟨source, hmem, hreads, .divisionByZero hkey hbuiltin⟩
  | malformed hkey hshape => exact ⟨source, hmem, hreads, .malformed hkey hshape⟩
  | notCallable hlist hkey =>
    obtain ⟨other, hother, hlist⟩ := hlist
    exact ⟨other, hother, hlist.child List.mem_cons_self, .notCallable hlist hkey⟩
  | parameter hlist hkey hchild hname =>
    obtain ⟨other, hother, hlist⟩ := hlist
    have hnodes := hlist.child (List.mem_cons_of_mem _ List.mem_cons_self)
    exact ⟨other, hother, hnodes.child hchild, .parameter hlist hkey hchild hname⟩

/-- Where the error of a source text comes from.  An error of evaluation blames a node of one
of the texts evaluated so far, `sources`, and an error of reading a paren of `text`. -/
def Located (sources : List String) (text : String) : SourceError → Prop
  | .eval error => ∃ source ∈ sources, ∃ node,
      Reads source node ∧ node.span = error.span ∧ error.fault.Blames (Reads source) node
  | .read error =>
    (∃ span, error = .strayClose span ∧ ⟨.closing, span⟩ ∈ Token.tokenize text) ∨
      ∃ span, error = .unclosed span ∧ ⟨.opening, span⟩ ∈ Token.tokenize text
  | .unreadable _ _ => False

/-- Every error of a session can be located in the texts evaluated so far. -/
theorem Reached.located {depth : Nat} {error : SourceError} (h : Reached texts session)
    (heval : session.eval depth text = some (.error error, after)) :
    Located (texts ++ [text]) text error := by
  obtain ⟨answer, store, hforms, hresult, -⟩ := eval_eq_some_iff.mp heval
  rcases sourceResult_eq_error hresult.symm with
    ⟨blamed, rfl, rfl⟩ | ⟨value, fault, rfl, hfault, rfl⟩
  · have horigin := origin_readFrom (texts ++ [text])
    have hstore := h.forClosures.mono fun _ hread => hread.append [text]
    have hknown : ∀ form ∈ forms text, Due (ReadFrom (texts ++ [text])) form :=
      fun form hmem => .known (.last (.of_mem_forms hmem))
    have hkeeps := evalForms_keeps (fun form hmem _ _ _ hstore hderives =>
      (hderives.traced horigin hstore (hknown form hmem)).1) h.hosts hstore hforms
    obtain ⟨form, hmem, between, hbetween, hderives⟩ := hkeeps.2 blamed rfl
    obtain ⟨node, hnode, hspan, hblames⟩ :=
      (hderives.traced horigin hbetween (hknown form hmem)).2
    obtain ⟨source, hsource, hreads, hblames⟩ := exists_blames hblames hnode
    exact ⟨source, hsource, node, hreads, hspan, hblames⟩
  · exact Reader.mem_of_readAll hfault

/-- The closure that `(define f (lambda (x) (+ 1 x)))` makes in a new session. -/
def increment : Closure where
  identity := 0
  parameters := ["x"]
  body := .list [.symbol "+" ⟨23, 24⟩, .number 1 ⟨25, 26⟩, .symbol "x" ⟨27, 28⟩] ⟨22, 29⟩
  frame := 0

/-- A new session in which `f` is bound to `increment`. -/
def incrementing : Session where
  store := ⟨#[⟨none, Store.globalBindings ++ [("f", .procedure (.closure increment))]⟩], 1⟩
  root := 0

theorem reached_incrementing : Reached ["(define f (lambda (x) (+ 1 x)))"] incrementing := by
  have heval : Session.new.eval 4 "(define f (lambda (x) (+ 1 x)))" =
      some (.ok (some (.procedure (.closure increment))), incrementing) :=
    eval_of_read
      (.list [.symbol "define" ⟨1, 7⟩, .symbol "f" ⟨8, 9⟩, .list [.symbol "lambda" ⟨11, 17⟩,
        .list [.symbol "x" ⟨19, 20⟩] ⟨18, 21⟩, increment.body] ⟨10, 30⟩] ⟨0, 31⟩)
      (.ok (.procedure (.closure increment))) (by rfl) (by with_unfolding_all rfl)
  exact Reached.new.eval heval

/-- The call `(f f)` fails in the body of `f`. -/
theorem incrementing_eval :
    incrementing.eval 4 "(f f)" =
      some (.error (.eval ⟨.typeMismatch .add 2 .lambda, ⟨22, 29⟩⟩),
        { incrementing with store :=
            incrementing.store.push ⟨some 0, [("x", .procedure (.closure increment))]⟩ }) :=
  eval_of_read (.list [.symbol "f" ⟨1, 2⟩, .symbol "f" ⟨3, 4⟩] ⟨0, 5⟩)
    (.error ⟨.typeMismatch .add 2 .lambda, ⟨22, 29⟩⟩) (by rfl) (by with_unfolding_all rfl)

/-- The node to blame for `(f f)` stands in the text that defined `f`. -/
theorem located_in_earlier_text :
    Reached ["(define f (lambda (x) (+ 1 x)))"] incrementing ∧
      Located ["(define f (lambda (x) (+ 1 x)))", "(f f)"] "(f f)"
        (.eval ⟨.typeMismatch .add 2 .lambda, ⟨22, 29⟩⟩) :=
  ⟨reached_incrementing, reached_incrementing.located incrementing_eval⟩

end Session

end TinyLisp
