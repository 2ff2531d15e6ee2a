import TinyLisp.Proofs.Chains
import TinyLisp.Proofs.Sessions

/-!
# Stores grow

All that an evaluation does to a store is to count closures, to bind names and to make frames.
None of these takes a frame, a link to an enclosing frame or a bound name away.  So a name that
was once found in the scope of a frame is always found there, in the frame where it was found or
in one that is nearer.

* `Store.Change` is one change and `Store.Becomes` any number of them.  A store in the middle of an
  evaluation is a store in the middle of its changes.
* `Store.Grows`: what no change takes away.
* `Derives.becomes`: every evaluation is a sequence of changes.  It is an induction over the rules,
  and the values that they bind are those that `Derives.wellFormed` speaks of.
* `Store.Command` and `Store.Run`: what can be asked of a store from outside.
* `Store.WellFormed.moves_inward`: names and the frames in which they are found.
-/

namespace TinyLisp

open Evaluation Relation

namespace Store

/-! ## Changes -/

/-- One change of a store: a closure is counted, a name is bound, or a frame is made. -/
inductive Change : Store → Store → Prop where
  | count {store : Store} : Change store { store with closures := store.closures + 1 }
  | bind {store : Store} {frame : Nat} {name : String} {value : Value}
      (hvalue : value.Within store.frames.size) : Change store (store.set frame name value)
  | make {store : Store} {frame : Frame}
      (houter : ∀ outer, frame.outer = some outer → outer < store.frames.size)
      (hbindings : ∀ name value, frame.bindings.get? name = some value →
        value.Within store.frames.size) : Change store (store.push frame)

/-- The second store comes out of the first by changes. -/
def Becomes : Store → Store → Prop :=
  ReflTransGen Change

/-- The second store has the frames of the first, each enclosed as in the first, and they bind all
names that they bind in the first. -/
structure Grows (store after : Store) : Prop where
  size_le : store.frames.size ≤ after.frames.size
  outer? : ∀ frame < store.frames.size, after.outer? frame = store.outer? frame
  bound : ∀ frame name, (store.get? frame name).isSome → (after.get? frame name).isSome

namespace Grows

variable {store between after : Store}

theorem refl (store : Store) : store.Grows store :=
  ⟨Nat.le_refl _, fun _ _ => rfl, fun _ _ hbound => hbound⟩

theorem trans (h : store.Grows between) (h' : between.Grows after) : store.Grows after where
  size_le := Nat.le_trans h.size_le h'.size_le
  outer? frame hlt := by rw [h'.outer? frame (Nat.lt_of_lt_of_le hlt h.size_le), h.outer? frame hlt]
  bound frame name hbound := h'.bound frame name (h.bound frame name hbound)

theorem set (store : Store) (frame : Nat) (name : String) (value : Value) :
    store.Grows (store.set frame name value) where
  size_le := Nat.le_of_eq (size_set ..).symm
  outer? _ _ := outer?_set ..
  bound other wanted hbound := by
    rw [get?_set]
    split
    · rfl
    · exact hbound

theorem push (store : Store) (frame : Frame) : store.Grows (store.push frame) where
  size_le := by
    rw [size_push]
    exact Nat.le_succ _
  outer? _ hlt := outer?_push_of_lt hlt _
  bound other name hbound := by
    obtain ⟨value, hvalue⟩ := Option.isSome_iff_exists.mp hbound
    rw [get?_push_of_lt (lt_size_of_get? hvalue)]
    exact hbound

end Grows

variable {store between after : Store} {frame : Nat} {name : String}

theorem Change.grows (h : store.Change after) : store.Grows after := by
  cases h with
  | count => exact ⟨Nat.le_refl _, fun _ _ => rfl, fun _ _ hbound => hbound⟩
  | bind => exact .set ..
  | make => exact .push ..

theorem Change.wellFormed (h : store.Change after) (hstore : store.WellFormed) :
    after.WellFormed := by
  cases h with
  | count => exact hstore.count _
  | bind hvalue => exact hstore.set _ _ hvalue
  | make houter hbindings => exact hstore.push houter (hstore.within.push hbindings)

theorem Becomes.grows (h : store.Becomes after) : store.Grows after := by
  induction h with
  | refl => exact .refl store
  | tail _ hchange ih => exact ih.trans hchange.grows

theorem Becomes.wellFormed (h : store.Becomes after) (hstore : store.WellFormed) :
    after.WellFormed := by
  induction h with
  | refl => exact hstore
  | tail _ hchange ih => exact hchange.wellFormed ih

/-- The frame of a call. -/
theorem Change.enter {outer : Nat} {names : List String} {values : List Value}
    (houter : outer < store.frames.size)
    (hvalues : ∀ value ∈ values, value.Within store.frames.size) :
    store.Change (store.push ⟨some outer, Bindings.ofPairs (names.zip values)⟩) := by
  refine .make (fun other hother => ?_) fun name value hvalue => ?_
  · cases hother
    exact houter
  · exact hvalues value (List.of_mem_zip (Bindings.mem_of_get?_ofPairs hvalue)).2

end Store

/-! ## Evaluations are changes -/

/-- Every evaluation is a sequence of changes, also one that fails. -/
theorem Derives.becomes {store after : Store} {task : Task} {result : Except EvalError Value}
    (h : Derives store task result after) (hstore : store.WellFormed)
    (htask : task.Within store.frames.size) : store.Becomes after := by
  induction h with
  | define _ hnode ih | assign _ _ hnode ih =>
    exact (ih hstore htask).tail (.bind ((hnode.wellFormed hstore htask).2 _ rfl))
  | lambda => exact .single .count
  | consequent _ hfirst _ _ ih ih' | alternate _ hfirst _ _ ih ih' | orFalse _ hfirst _ _ ih ih'
  | andTrue _ hfirst _ _ ih ih' =>
    have hbetween := (hfirst.wellFormed hstore htask).1
    exact (ih hstore htask).trans (ih' hbetween (Nat.lt_of_lt_of_le htask hfirst.size_le))
  | application _ hhead _ ih ih' =>
    obtain ⟨hbetween, hprocedure⟩ := hhead.wellFormed hstore htask
    exact (ih hstore htask).trans
      (ih' hbetween ⟨Nat.lt_of_lt_of_le htask hhead.size_le, hprocedure _ rfl, by simp⟩)
  | operand hoperand _ ih ih' =>
    obtain ⟨hbetween, hvalue⟩ := hoperand.wellFormed hstore htask.1
    have hle := hoperand.size_le
    exact (ih hstore htask.1).trans (ih' hbetween ⟨Nat.lt_of_lt_of_le htask.1 hle,
      htask.2.1.mono hle, Value.within_append_singleton htask.2.2 hle (hvalue _ rfl)⟩)
  | operandFails _ ih => exact ih hstore htask.1
  | operandsEnd _ ih => exact ih hstore htask.2
  | closure _ _ ih =>
    have hbody := ih (hstore.enter htask.1 htask.2) (by simp [Task.Within, Store.nextFrame])
    exact .trans (.single (.enter htask.1 htask.2)) hbody
  | defineFails _ _ ih | assignFails _ _ _ ih | conditionFails _ _ ih | orTrue _ _ _ ih
  | orFails _ _ ih | andLast _ _ ih | andFalse _ _ _ ih | andFails _ _ ih | headFails _ _ ih
  | notCallable _ _ ih => exact ih hstore htask
  | number | symbol | unbound | empty | misshapen | assignUnbound | orNone | andNone
  | builtinValue | builtinFault | builtinArity | closureArity => exact .refl

namespace Store

variable {store after : Store} {depth frame : Nat}

/-- The forms of a text are evaluated by changes, and the value is one of the store that they leave
behind. -/
theorem Hosts.evalForms (hosts : store.Hosts frame) {last : Option Value} {forms : List Node}
    {result : Except EvalError (Option Value)}
    (hlast : ∀ value, last = some value → value.Within store.frames.size)
    (h : evalForms depth frame last forms store = some (result, after)) :
    store.Becomes after ∧ ∀ value, result = .ok (some value) → value.Within after.frames.size := by
  induction forms generalizing last store with
  | nil =>
    cases h
    exact ⟨.refl, fun value hvalue => hlast value (Except.ok.inj hvalue)⟩
  | cons form rest ih =>
    rcases bind_eq_some_iff.mp h with ⟨error, hfirst, rfl⟩ | ⟨value, between, hfirst, hrest⟩
    · have hderives := eval_sound depth hosts.wellFormed hosts.lt_size hfirst
      exact ⟨hderives.becomes hosts.wellFormed hosts.lt_size, by simp⟩
    · have hderives := eval_sound depth hosts.wellFormed hosts.lt_size hfirst
      have hvalue := (hderives.wellFormed hosts.wellFormed hosts.lt_size).2 value rfl
      have hsame : ∀ other, some value = some other → other.Within between.frames.size := by
        rintro _ ⟨⟩
        exact hvalue
      obtain ⟨hbecomes, hresult⟩ := ih (hosts.derives hderives) hsame hrest
      exact ⟨(hderives.becomes hosts.wellFormed hosts.lt_size).trans hbecomes, hresult⟩

/-! ## Commands -/

/-- What can be asked of a store, with the value that is returned, if there is one: a new frame, a
binding, an evaluation, a call or the evaluation of a source text.  The last three may end with an
error. -/
inductive Command : Store → Option Value → Store → Prop where
  | root {store : Store} : Command store none store.addRoot
  | global {store : Store} : Command store none store.addGlobal
  | enclose {store : Store} {outer : Nat} (houter : outer < store.frames.size) :
      Command store none (store.enclose outer)
  | bind {store : Store} {frame : Nat} {name : String} {value : Value}
      (hframe : frame < store.frames.size) (hvalue : value.Within store.frames.size) :
      Command store none (store.set frame name value)
  | eval {store after : Store} {depth frame : Nat} {node : Node} {result : Except EvalError Value}
      (hframe : frame < store.frames.size)
      (heval : TinyLisp.eval depth frame node store = some (result, after)) :
      Command store result.toOption after
  | call {store after : Store} {depth : Nat} {procedure : Procedure} {arguments : List Value}
      {span : Span} {result : Except EvalError Value}
      (hprocedure : procedure.Within store.frames.size)
      (harguments : ∀ argument ∈ arguments, argument.Within store.frames.size)
      (hcall : apply depth procedure arguments span store = some (result, after)) :
      Command store result.toOption after
  | source {store after : Store} {depth frame : Nat} {text : String} {result : SourceResult}
      (hframe : frame < store.frames.size)
      (hsource : evalSource depth frame text store = some (result, after)) :
      Command store result.toOption.join after

/-- The second store comes out of the first by commands. -/
def Run : Store → Store → Prop :=
  ReflTransGen fun store after => ∃ returned, Command store returned after

theorem toOption_eq_some {ε α : Type} {result : Except ε α} {a : α}
    (h : result.toOption = some a) : result = .ok a := by
  cases result with
  | error => cases h
  | ok b => exact congrArg Except.ok (Option.some.inj h)

/-- A derivation changes the store, and its value is one of the store that it leaves behind. -/
theorem becomes_of_derives {task : Task} {result : Except EvalError Value}
    (hstore : store.WellFormed) (h : Derives store task result after)
    (htask : task.Within store.frames.size) :
    store.Becomes after ∧ ∀ value, result.toOption = some value → value.Within after.frames.size :=
  ⟨h.becomes hstore htask, fun value hvalue =>
    (h.wellFormed hstore htask).2 value (toOption_eq_some hvalue)⟩

theorem Hosts.evalSource (hosts : store.Hosts frame) {text : String} {result : SourceResult}
    (h : evalSource depth frame text store = some (result, after)) :
    store.Becomes after ∧ ∀ value, result = .ok (some value) → value.Within after.frames.size := by
  have hsession : (⟨store, frame⟩ : Session).eval depth text = some (result, ⟨after, frame⟩) := by
    simp [Session.eval, h]
  obtain ⟨answer, last, hforms, rfl, hafter⟩ := Session.eval_eq_some_iff.mp hsession
  cases hafter
  obtain ⟨hbecomes, hvalue⟩ := hosts.evalForms (by simp) hforms
  exact ⟨hbecomes, fun value heq => hvalue value (sourceResult_eq_ok heq)⟩

/-- A command is a sequence of changes, and it returns a value of the store that it leaves
behind. -/
theorem Command.becomes {returned : Option Value} (h : store.Command returned after)
    (hstore : store.WellFormed) :
    store.Becomes after ∧ ∀ value, returned = some value → value.Within after.frames.size := by
  cases h with
  | root => exact ⟨.single (.make (by simp) (by simp [Bindings.get?])), by simp⟩
  | global =>
    refine ⟨.single (.make (by simp) fun name value hvalue => ?_), by simp⟩
    exact ForClosures.addGlobal (P := fun closure => closure.frame < store.frames.size)
      .empty 0 name value hvalue
  | enclose houter =>
    refine ⟨.single (.make (fun other hother => ?_) (by simp [Bindings.get?])), by simp⟩
    cases hother
    exact houter
  | bind _ hvalue => exact ⟨.single (.bind hvalue), by simp⟩
  | @eval _ depth frame node result hframe heval =>
    have hderives := eval_sound depth hstore hframe heval
    exact becomes_of_derives hstore hderives hframe
  | @call _ depth procedure arguments span result hprocedure harguments hcall =>
    have hderives := Eval.apply_derives (eval_sound depth) hstore hprocedure harguments hcall
    exact becomes_of_derives hstore hderives ⟨hprocedure, harguments⟩
  | source hframe hsource =>
    obtain ⟨hbecomes, hvalue⟩ := Hosts.evalSource ⟨hstore, hframe⟩ hsource
    refine ⟨hbecomes, fun value heq => hvalue value ?_⟩
    exact toOption_eq_some (Option.join_eq_some_iff.mp heq)

/-- Commands one after the other are a sequence of changes. -/
theorem Run.becomes (h : store.Run after) (hstore : store.WellFormed) : store.Becomes after := by
  induction h with
  | refl => exact .refl
  | tail _ hcommand ih =>
    obtain ⟨returned, hcommand⟩ := hcommand
    exact ih.trans (hcommand.becomes (ih.wellFormed hstore)).1

/-! ## Frames and values -/

variable {between : Store} {name : String} {owner : Nat}

/-- A frame that is new was made at some moment, and is still enclosed as it was then. -/
theorem Becomes.exists_made (h : store.Becomes after) (hnew : store.frames.size ≤ frame)
    (hlt : frame < after.frames.size) :
    ∃ before made, store.Becomes before ∧ before.Change (before.push made) ∧
      (before.push made).Becomes after ∧ before.nextFrame = frame ∧
      after.outer? frame = made.outer := by
  induction h with
  | refl => exact absurd hlt (Nat.not_lt_of_le hnew)
  | @tail between after hbetween hchange ih =>
    rcases Nat.lt_or_ge frame between.frames.size with hold | hmade
    · obtain ⟨before, made, hbefore, hmake, hrest, hframe, houter⟩ := ih hold
      exact ⟨before, made, hbefore, hmake, hrest.tail hchange, hframe,
        (hchange.grows.outer? frame hold).trans houter⟩
    · have hmake := hchange
      cases hchange with
      | count => exact absurd hlt (Nat.not_lt_of_le hmade)
      | bind =>
        rw [size_set] at hlt
        exact absurd hlt (Nat.not_lt_of_le hmade)
      | make =>
        rw [size_push] at hlt
        have hframe : between.nextFrame = frame := Nat.le_antisymm hmade (Nat.le_of_lt_succ hlt)
        exact ⟨between, _, hbetween, hmake, .refl, hframe, by rw [← hframe, outer?_push_nextFrame]⟩

end Store

/-- A number, the builtin that every new global frame binds under its name, or a closure over one
of so many frames. -/
def Value.Proper (count : Nat) : Value → Prop
  | .number _ => True
  | .procedure (.builtin b) =>
    Bindings.get? b.name Store.globalBindings = some (.procedure (.builtin b))
  | .procedure (.closure c) => c.frame < count

theorem Value.Within.proper {count : Nat} {value : Value} (h : value.Within count) :
    value.Proper count := by
  match value, h with
  | .number _, _ => trivial
  | .procedure (.builtin b), _ => cases b <;> rfl
  | .procedure (.closure _), h => exact h

namespace Store

variable {store between after : Store} {depth frame : Nat} {name : String} {owner : Nat}

/-- The closure that `(define f (lambda (x) x))` binds in the frame that it captures. -/
def knot : Closure := ⟨0, ["x"], .symbol "x" ⟨22, 23⟩, 0⟩

/-- A root frame that binds a closure over itself, and a frame that it encloses. -/
def knotted : Store :=
  ⟨#[⟨none, [("f", .procedure (.closure knot))]⟩, ⟨some 0, []⟩], 1⟩

theorem run_knotted : empty.Run knotted := by
  have hdefine : eval 2 0 (.list [.symbol "define" ⟨1, 7⟩, .symbol "f" ⟨8, 9⟩,
      .list [.symbol "lambda" ⟨11, 17⟩, .list [.symbol "x" ⟨19, 20⟩] ⟨18, 21⟩,
        .symbol "x" ⟨22, 23⟩] ⟨10, 24⟩] ⟨0, 25⟩) empty.addRoot =
      some (.ok (.procedure (.closure knot)),
        ⟨#[⟨none, [("f", .procedure (.closure knot))]⟩], 1⟩) := by
    with_unfolding_all rfl
  exact ((ReflTransGen.single ⟨none, .root⟩).tail ⟨_, .eval (by decide) hdefine⟩).tail
    ⟨none, .enclose (by decide)⟩

theorem Resolves.isSome (h : store.Resolves frame name owner) :
    (store.get? owner name).isSome := by
  induction h with
  | here hbound => exact hbound
  | outer _ _ _ ih => exact ih

/-- When a store grows, a name is found where it was or before that on the way outward. -/
theorem Resolves.grows (h : store.Resolves frame name owner) (hgrows : store.Grows after) :
    ∃ nearer, after.Resolves frame name nearer ∧ store.Outward frame nearer ∧
      store.Outward nearer owner := by
  induction h with
  | here hbound => exact ⟨_, .here (hgrows.bound _ _ hbound), .refl, .refl⟩
  | @outer frame outer owner name hfree houter howner ih =>
    cases hget : after.get? frame name with
    | some value =>
      exact ⟨frame, .here (by rw [hget]; rfl), .refl, .head houter howner.outward⟩
    | none =>
      obtain ⟨nearer, hnearer, hfirst, hlast⟩ := ih
      have hlink := (hgrows.outer? frame (lt_size_of_outer? houter)).trans houter
      exact ⟨nearer, .outer hget hlink hnearer, .head houter hfirst, hlast⟩

/-- A name that is found has a value. -/
theorem Resolves.exists_eval (h : store.Resolves frame name owner) (hstore : store.WellFormed)
    (depth : Nat) (span : Span) :
    ∃ value, eval (depth + 1) frame (.symbol name span) store = some (.ok value, store) := by
  obtain ⟨value, hvalue⟩ := Option.isSome_iff_exists.mp h.isSome
  have hlookup := hstore.lookup?_eq_some_iff.mpr ⟨owner, h, hvalue⟩
  refine ⟨value, ?_⟩
  simp only [TinyLisp.eval, Eval.step, Eval.symbolValue_apply, hlookup]

/-- Commands are sequences of changes.  Of any two moments of such a sequence, take a frame that
is there at the first.  A name that is found from it is found from it later, in the frame where it
was found or in one that is nearer on the same chain, and the frame where it was found still binds
it.  The frame loses no name, and what is visible from it stays visible.  So a name that was once
found there never is unbound there. -/
theorem WellFormed.moves_inward (hstore : store.WellFormed) :
    (∀ after, store.Run after → store.Becomes after) ∧
    ∀ first second frame, store.Becomes first → first.Becomes second →
      frame < first.frames.size →
      (∀ name owner, first.find? frame name = some owner →
        (second.get? owner name).isSome ∧ ∃ nearer, second.find? frame name = some nearer ∧
          first.Outward frame nearer ∧ first.Outward nearer owner) ∧
      (∀ name, (first.get? frame name).isSome → (second.get? frame name).isSome) ∧
      first.visible frame ⊆ second.visible frame ∧
      ∀ name, (first.lookup? frame name).isSome → ∀ depth span,
        ∃ value, eval (depth + 1) frame (.symbol name span) second = some (.ok value, second) := by
  refine ⟨fun after hrun => hrun.becomes hstore, fun first second frame hfirst hsecond _ => ?_⟩
  have hbefore := hfirst.wellFormed hstore
  have hafter := hsecond.wellFormed hbefore
  have hgrows := hsecond.grows
  refine ⟨fun name owner hfind => ?_, hgrows.bound frame, fun name hmem => ?_,
    fun name hlookup depth span => ?_⟩
  · have howner := hbefore.find?_eq_some_iff.mp hfind
    obtain ⟨nearer, hnearer, houtward⟩ := howner.grows hgrows
    exact ⟨hgrows.bound owner name howner.isSome, nearer,
      hafter.find?_eq_some_iff.mpr hnearer, houtward⟩
  · obtain ⟨owner, howner⟩ := hbefore.mem_visible_iff.mp hmem
    obtain ⟨nearer, hnearer, -⟩ := howner.grows hgrows
    exact hafter.mem_visible_iff.mpr ⟨nearer, hnearer⟩
  · obtain ⟨value, hvalue⟩ := Option.isSome_iff_exists.mp hlookup
    obtain ⟨owner, howner, -⟩ := hbefore.lookup?_eq_some_iff.mp hvalue
    obtain ⟨nearer, hnearer, -⟩ := howner.grows hgrows
    exact hnearer.exists_eval hafter depth span

/-- After `(define f 7)` in the inner frame, `f` is found there. -/
theorem knotted_moves_inward :
    knotted.WellFormed ∧ knotted.find? 1 "f" = some 0 ∧
      knotted.Run (knotted.set 1 "f" (.number 7)) ∧
      ∃ nearer, (knotted.set 1 "f" (.number 7)).find? 1 "f" = some nearer ∧
        knotted.Outward 1 nearer ∧ knotted.Outward nearer 0 := by
  have hstore := (run_knotted.becomes .empty).wellFormed .empty
  have hfind : knotted.find? 1 "f" = some 0 := by with_unfolding_all rfl
  have hdefine : eval 2 1 (.list [.symbol "define" ⟨1, 7⟩, .symbol "f" ⟨8, 9⟩, .number 7 ⟨10, 11⟩]
      ⟨0, 12⟩) knotted = some (.ok (.number 7), knotted.set 1 "f" (.number 7)) := by
    with_unfolding_all rfl
  have hrun : knotted.Run (knotted.set 1 "f" (.number 7)) :=
    .single ⟨_, .eval (by decide) hdefine⟩
  obtain ⟨hbecomes, hmoves⟩ := hstore.moves_inward
  obtain ⟨hfound, -⟩ := hmoves _ _ 1 .refl (hbecomes _ hrun) (by decide)
  exact ⟨hstore, hfind, hrun, (hfound "f" 0 hfind).2⟩

end Store
end TinyLisp
