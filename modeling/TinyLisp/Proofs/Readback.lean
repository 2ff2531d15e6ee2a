import TinyLisp.Proofs.Layout

/-!
# Closures read back from their texts

The text of a closure is a `lambda` form.  Read again and evaluated, it makes a closure with the
same parameters and the same body.  This holds of every closure that a session gives: a name in a
session, be it bound or part of a closure, is that of a builtin or was read from a text.

* `Store.ForNames` is a property of all names that are bound.
* `Closure.Named` and `Store.Named`: all names are read as symbols.  Evaluations keep this, so a
  session that can be reached has no other names, `Session.Reached.named`.
* `Closure.form` is the form that the text of a closure is, and `Closure.eval_of_erase_eq_form`:
  what it makes.
* `Session.Reached.reads_back`: the closures that a session holds and returns.
-/

namespace TinyLisp

open Evaluation

/-! ## The names of a store -/

namespace Store

variable {N : String → Prop} {store : Store} {frame : Nat} {name : String} {value : Value}

/-- Every name that a frame of the store binds has the property. -/
def ForNames (N : String → Prop) (store : Store) : Prop :=
  ∀ frame name, (store.get? frame name).isSome → N name

namespace ForNames

theorem empty : Store.empty.ForNames N := by
  intro frame name hbound
  obtain ⟨value, hvalue⟩ := Option.isSome_iff_exists.mp hbound
  exact absurd (lt_size_of_get? hvalue) (Nat.not_lt_zero _)

theorem set (h : store.ForNames N) (hname : N name) (frame : Nat) (value : Value) :
    (store.set frame name value).ForNames N := by
  intro other wanted hbound
  rw [get?_set] at hbound
  split at hbound
  · rename_i hsame
    exact hsame.2.1 ▸ hname
  · exact h other wanted hbound

theorem push (h : store.ForNames N) {frame : Frame}
    (hnames : ∀ name, (frame.bindings.get? name).isSome → N name) :
    (store.push frame).ForNames N := by
  intro other name hbound
  rw [get?_push] at hbound
  split at hbound
  · exact hnames name hbound
  · exact h other name hbound

/-- A global frame binds the names of the builtins. -/
theorem addGlobal (h : store.ForNames N) (hbuiltin : ∀ builtin : Builtin, N builtin.name) :
    store.addGlobal.ForNames N := by
  refine h.push fun name hbound => ?_
  obtain ⟨pair, hmem, rfl⟩ := List.mem_map.mp (Bindings.get?_isSome_iff.mp hbound)
  obtain ⟨builtin, -, rfl⟩ := List.mem_map.mp hmem
  exact hbuiltin builtin

/-- The frame of a call binds the parameters. -/
theorem enter (h : store.ForNames N) {outer : Nat} {names : List String} {values : List Value}
    (hnames : ∀ name ∈ names, N name) :
    (store.push ⟨some outer, Bindings.ofPairs (names.zip values)⟩).ForNames N := by
  refine h.push fun name hbound => ?_
  obtain ⟨value, hvalue⟩ := Option.isSome_iff_exists.mp hbound
  exact hnames name (List.of_mem_zip (Bindings.mem_of_get?_ofPairs hvalue)).1

end ForNames
end Store

/-! ## Names that are read as symbols -/

/-- Every symbol in the node is read as a symbol. -/
def Node.Named (node : Node) : Prop :=
  ∀ name span, (symbol name span).Part node → IsName name

/-- The parameters are read as symbols, and so is every symbol in the body. -/
structure Closure.Named (closure : Closure) : Prop where
  parameters : ∀ name ∈ closure.parameters, IsName name
  body : closure.body.Named

/-- A form whose symbols are read as symbols makes closures of that kind only. -/
theorem origin_named : Origin Node.Named Closure.Named where
  child h hmem name span hpart := h name span (.child hmem hpart)
  body h := h.body
  made {head nodes place body span names identity frame} h hkey hnames := by
    refine ⟨fun name hmem => ?_, fun name span hpart => h name span (.child (by simp) hpart)⟩
    have hsome : some name ∈ nodes.map Node.name? := by
      rw [hnames]
      exact List.mem_map_of_mem hmem
    obtain ⟨node, hnode, hname⟩ := List.mem_map.mp hsome
    cases node with
    | symbol other mark =>
      cases hname
      have hpart : (Node.symbol name mark).Part (.list nodes place) := .of_mem hnode
      exact h name mark (.child (by simp) hpart)
    | number | list => cases hname

theorem isName_name (builtin : Builtin) : IsName builtin.name := by
  cases builtin <;> exact ⟨⟨by decide, List.all_eq_true.mp (by decide)⟩, by decide⟩

theorem isName_word (keyword : Keyword) : IsName keyword.word := by
  cases keyword <;> exact ⟨⟨by decide, List.all_eq_true.mp (by decide)⟩, by decide⟩

/-- Every name that is bound, and every name in a closure that is bound, is read as a symbol. -/
structure Store.Named (store : Store) : Prop where
  names : store.ForNames IsName
  closures : store.ForClosures Closure.Named

theorem kept_named : Kept Node.Named Closure.Named Store.Named where
  closures h := h.closures
  set h hsymbol hvalue frame :=
    ⟨h.names.set (hsymbol _ _ .self) frame _, h.closures.set frame _ hvalue⟩
  enter h hclosure hvalues := ⟨h.names.enter hclosure.parameters, h.closures.enter hvalues⟩
  count h _ := ⟨h.names, h.closures⟩

/-! ## Evaluations -/

section Forms

variable {depth frame : Nat} {forms : List Node} {last : Option Value} {store after : Store}

theorem Derives.named {node : Node} {result : Except EvalError Value}
    (h : Derives store (.node frame node) result after) (hnode : node.Named)
    (hstore : store.Named) : after.Named ∧ Traced Node.Named Closure.Named result :=
  h.keeps origin_named kept_named hstore (.known hnode)

theorem evalForms_named {result : Except EvalError (Option Value)}
    (hnodes : ∀ form ∈ forms, form.Named) (hosts : store.Hosts frame) (hstore : store.Named)
    (h : evalForms depth frame last forms store = some (result, after)) :
    after.Hosts frame ∧ after.Named := by
  refine (evalForms_keeps (fun form hmem _ _ _ hbetween hderives => ?_) hosts hstore h).1
  exact (hderives.named (hnodes form hmem) hbetween).1

/-- The value of some forms is that of the last one, evaluated where the others ended. -/
theorem exists_of_evalForms_eq_ok {value : Value}
    (h : evalForms depth frame none forms store = some (.ok (some value), after)) :
    ∃ front form last between, forms = front ++ [form] ∧
      evalForms depth frame none front store = some (.ok last, between) ∧
      eval depth frame form between = some (.ok value, after) := by
  rcases List.eq_nil_or_concat forms with rfl | ⟨front, form, rfl⟩
  · cases h
  · rw [List.concat_eq_append, Session.evalForms_append] at h
    rcases bind_eq_some_iff.mp h with ⟨error, -, hresult⟩ | ⟨last, between, hfront, hlast⟩
    · cases hresult
    · refine ⟨front, form, last, between, List.concat_eq_append .., hfront, ?_⟩
      rcases bind_eq_some_iff.mp hlast with ⟨error, -, hresult⟩ | ⟨given, left, hform, hend⟩
      · cases hresult
      · cases hend
        exact hform

end Forms

namespace Session

variable {texts : List String} {text : String} {session after : Session}

theorem named_of_mem_forms {form : Node} (h : form ∈ forms text) : form.Named :=
  fun _ _ hpart => (Reads.madeOf ⟨form, h, hpart⟩).isName

theorem Reached.named (h : Reached texts session) : session.store.Named := by
  induction h with
  | new =>
    exact ⟨Store.ForNames.empty.addGlobal isName_name, Store.ForClosures.empty.addGlobal⟩
  | eval h heval ih =>
    obtain ⟨answer, store, hforms, -, rfl⟩ := eval_eq_some_iff.mp heval
    exact (evalForms_named (fun _ => named_of_mem_forms) h.hosts ih hforms).2

/-- The session holds the closure in a frame, or returns it for a text. -/
def Gives (session : Session) (closure : Closure) : Prop :=
  session.store.Binds closure ∨ ∃ depth text after,
    session.eval depth text = some (.ok (some (.procedure (.closure closure))), after)

/-- Every name in a closure that the session gives is read as a symbol. -/
theorem Reached.named_of_gives (h : Reached texts session) {closure : Closure}
    (hgives : session.Gives closure) : closure.Named := by
  rcases hgives with hbinds | ⟨depth, text, after, heval⟩
  · exact Store.forClosures_iff.mp h.named.closures closure hbinds
  · obtain ⟨answer, store, hforms, hresult, -⟩ := eval_eq_some_iff.mp heval
    cases sourceResult_eq_ok hresult.symm
    obtain ⟨front, form, last, between, hsplit, hfront, hform⟩ := exists_of_evalForms_eq_ok hforms
    have hnodes : ∀ node ∈ front ++ [form], node.Named := fun _ hmem =>
      named_of_mem_forms (hsplit ▸ hmem)
    obtain ⟨hosts, hbetween⟩ := evalForms_named
      (fun node hmem => hnodes node (List.mem_append_left _ hmem)) h.hosts h.named hfront
    have hderives := eval_sound depth hosts.wellFormed hosts.lt_size hform
    have hlast := hnodes form (List.mem_append_right _ List.mem_cons_self)
    exact (hderives.named hlast hbetween).2

end Session

/-! ## The form of a closure -/

/-- A node that is a list without regard to spans is a list. -/
theorem Node.exists_of_erase_eq_list {node : Node} {others : List Node}
    (h : node.erase = .list others default) :
    ∃ children span, node = .list children span ∧ children.map erase = others := by
  cases node with
  | number | symbol => simp [erase] at h
  | list children span =>
    rw [erase_list] at h
    exact ⟨children, span, rfl, (Node.list.inj h).1⟩

namespace Closure

variable {closure : Closure}

/-- The `lambda` form that the text of a closure is. -/
def form (closure : Closure) : Node :=
  .list [.symbol Keyword.lambda.word default,
    .list (closure.parameters.map (.symbol · default)) default, closure.body] default

theorem render_form (closure : Closure) : closure.form.render = closure.render := by
  have hparameters : (closure.parameters.map (Node.symbol · default)).map Node.render =
      closure.parameters := by
    simp [Function.comp_def, Node.render]
  refine String.toList_inj.mp ?_
  simp [form, render, Node.render, Node.renderAll, Node.renderAll_eq_intercalate, hparameters,
    Keyword.word]

/-- The atoms of the form are the keyword, the parameters and the atoms of the body. -/
theorem part_form {part : Node} (h : part.Part closure.form) :
    (∃ children span, part = .list children span) ∨
      (∃ name, part = .symbol name default ∧
        (name = Keyword.lambda.word ∨ name ∈ closure.parameters)) ∨
      part.Part closure.body := by
  cases h with
  | self => exact .inl ⟨_, _, rfl⟩
  | child hmem hpart =>
    simp only [List.mem_cons, List.not_mem_nil, or_false] at hmem
    rcases hmem with rfl | rfl | rfl
    · cases hpart
      exact .inr (.inl ⟨_, rfl, .inl rfl⟩)
    · cases hpart with
      | self => exact .inl ⟨_, _, rfl⟩
      | child hparameter hpart =>
        obtain ⟨name, hname, rfl⟩ := List.mem_map.mp hparameter
        cases hpart
        exact .inr (.inl ⟨name, rfl, .inr hname⟩)
    · exact .inr (.inr hpart)

/-- The symbols of the form are read as symbols. -/
theorem Named.form (h : closure.Named) : closure.form.Named := by
  intro name span hpart
  rcases part_form hpart with ⟨_, _, heq⟩ | ⟨other, heq, hname⟩ | hbody
  · cases heq
  · cases heq
    rcases hname with rfl | hmem
    · exact isName_word .lambda
    · exact h.parameters name hmem
  · exact h.body name span hbody

/-- The form can be written if the numbers in the body can. -/
theorem Named.writable_form (h : closure.Named)
    (hnumbers : ∀ value span, (Node.number value span).Part closure.body →
      Number.ReadsBack value) : closure.form.Writable where
  name := h.form
  number value span hpart := by
    rcases part_form hpart with ⟨_, _, heq⟩ | ⟨_, heq, -⟩ | hbody
    · cases heq
    · cases heq
    · exact hnumbers value span hbody

/-- What is read as the form of a closure is a `lambda` form with the parameters and the body of
the closure. -/
theorem exists_of_erase_eq_form {again : Node} (h : again.erase = closure.form.erase) :
    ∃ head nodes place body span, again = .list [head, .list nodes place, body] span ∧
      Eval.keyword? head = some .lambda ∧
      nodes.map Node.name? = closure.parameters.map some ∧
      body.erase = closure.body.erase := by
  rw [form, Node.erase_list] at h
  obtain ⟨children, span, rfl, hchildren⟩ := Node.exists_of_erase_eq_list h
  obtain ⟨head, rest, rfl, hhead, hrest⟩ := List.map_eq_cons_iff.mp hchildren
  obtain ⟨parameters, last, rfl, hparameters, hlast⟩ := List.map_eq_cons_iff.mp hrest
  obtain ⟨body, rfl, hbody⟩ := List.map_eq_singleton_iff.mp hlast
  rw [Node.erase_list] at hparameters
  obtain ⟨nodes, place, rfl, hnodes⟩ := Node.exists_of_erase_eq_list hparameters
  refine ⟨head, nodes, place, body, span, rfl, ?_, ?_, hbody⟩
  · have hkey := congrArg Eval.keyword? hhead
    rw [Node.erase, Node.erase, Eval.keyword?_respan, Eval.keyword?_respan] at hkey
    exact hkey.trans (Keyword.ofName?_word .lambda)
  · have hsymbol : ∀ name, (Node.symbol name default).name? = some name := fun _ => rfl
    have hnames := congrArg (List.map Node.name?) hnodes
    simpa only [Node.erase, List.map_map, Function.comp_def, Node.name?_respan, hsymbol]
      using hnames

/-- Evaluating the form makes a closure with these parameters and this body over the frame.  No
binding is changed. -/
theorem eval_of_erase_eq_form {again : Node} (h : again.erase = closure.form.erase) :
    ∃ body, body.erase = closure.body.erase ∧ ∀ depth frame store,
      eval (depth + 1) frame again store =
        some (.ok (.procedure (.closure ⟨store.closures, closure.parameters, body, frame⟩)),
          { store with closures := store.closures + 1 }) := by
  obtain ⟨head, nodes, place, body, span, rfl, hkey, hnames, hbody⟩ := exists_of_erase_eq_form h
  refine ⟨body, hbody, fun depth frame store => ?_⟩
  rw [Eval.eval_succ_of_keyword hkey]
  simp only [Eval.specialForm, Eval.lambda, Eval.parameters_eq_ok_iff.mpr hnames]
  rfl

end Closure

/-! ## Sessions -/

namespace Session

variable {texts : List String} {session : Session}

/-- The names in a session that can be reached, those of bindings as well as those of parameters,
are words that are not read as numbers.  So every closure that the session holds or returns comes
back from its text: if the numbers in its body do, then the text is read as one form, and that form
makes, in any frame of any store, a closure over that frame with the same parameters and, up to
spans, the same body.  Except that one more closure was made, nothing has changed. -/
theorem Reached.reads_back (h : Reached texts session) :
    session.store.ForNames IsName ∧ ∀ closure, session.Gives closure →
      (∀ name ∈ closure.parameters, IsName name) ∧
      ((∀ value span, (Node.number value span).Part closure.body → Number.ReadsBack value) →
        ∃ form body,
          Reader.parse (Value.procedure (.closure closure)).render = .ok [form] ∧
          body.erase = closure.body.erase ∧ ∀ depth frame store,
            TinyLisp.eval (depth + 1) frame form store =
              some (.ok (.procedure (.closure ⟨store.closures, closure.parameters, body, frame⟩)),
                { store with closures := store.closures + 1 })) := by
  refine ⟨h.named.names, fun closure hgives => ?_⟩
  have hnamed := h.named_of_gives hgives
  refine ⟨hnamed.parameters, fun hnumbers => ?_⟩
  have hwrites := Node.writes (hnamed.writable_form hnumbers)
  rw [closure.render_form] at hwrites
  obtain ⟨form, hparse, herase⟩ := isForm_of_writes hwrites
  obtain ⟨body, hbody, heval⟩ := Closure.eval_of_erase_eq_form herase
  exact ⟨form, body, hparse, hbody, heval⟩

/-- The closure that `(define f (lambda (if 1e if) (+ 1e -0)))` makes in a new session. -/
def addZero : Closure where
  identity := 0
  parameters := ["if", "1e", "if"]
  body := .list [.symbol "+" ⟨30, 31⟩, .symbol "1e" ⟨32, 34⟩, .number (-0) ⟨35, 37⟩] ⟨29, 38⟩
  frame := 0

/-- A new session in which `f` is bound to `addZero`. -/
def addingZero : Session where
  store := ⟨#[⟨none, Store.globalBindings ++ [("f", .procedure (.closure addZero))]⟩], 1⟩
  root := 0

/-- A parameter with the name of a keyword that stands there twice, one that is nearly a number, and
a negative zero come back. -/
theorem addZero_reads_back :
    Reached ["(define f (lambda (if 1e if) (+ 1e -0)))"] addingZero ∧ addingZero.Gives addZero ∧
      addZero.render = "(lambda (if 1e if) (+ 1e -0))" ∧
      (∀ value span, (Node.number value span).Part addZero.body → Number.ReadsBack value) ∧
      ∃ form body, Reader.parse "(lambda (if 1e if) (+ 1e -0))" = .ok [form] ∧
        body.erase = addZero.body.erase ∧ ∀ depth frame store,
          TinyLisp.eval (depth + 1) frame form store =
            some (.ok (.procedure (.closure ⟨store.closures, ["if", "1e", "if"], body, frame⟩)),
              { store with closures := store.closures + 1 }) := by
  have heval : Session.new.eval 4 "(define f (lambda (if 1e if) (+ 1e -0)))" =
      some (.ok (some (.procedure (.closure addZero))), addingZero) :=
    eval_of_read
      (.list [.symbol "define" ⟨1, 7⟩, .symbol "f" ⟨8, 9⟩, .list [.symbol "lambda" ⟨11, 17⟩,
        .list [.symbol "if" ⟨19, 21⟩, .symbol "1e" ⟨22, 24⟩, .symbol "if" ⟨25, 27⟩] ⟨18, 28⟩,
        addZero.body] ⟨10, 39⟩] ⟨0, 40⟩)
      (.ok (.procedure (.closure addZero))) (by rfl) (by with_unfolding_all rfl)
  have hreached : Reached ["(define f (lambda (if 1e if) (+ 1e -0)))"] addingZero :=
    Reached.new.eval heval
  have hgives : addingZero.Gives addZero := .inl ⟨0, "f", rfl⟩
  have hrender : addZero.render = "(lambda (if 1e if) (+ 1e -0))" := by decide +kernel
  have hnumbers : ∀ value span, (Node.number value span).Part addZero.body →
      Number.ReadsBack value := by
    intro value span hpart
    cases hpart with
    | child hmem hpart =>
      simp only [List.mem_cons, List.not_mem_nil, or_false] at hmem
      rcases hmem with rfl | rfl | rfl
      · cases hpart
      · cases hpart
      · cases hpart
        decide +kernel
  have hback := (hreached.reads_back.2 addZero hgives).2 hnumbers
  rw [Value.render, Procedure.render, hrender] at hback
  exact ⟨hreached, hgives, hrender, hnumbers, hback⟩

end Session
end TinyLisp
