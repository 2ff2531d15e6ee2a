import TinyLisp.Proofs.Encapsulation

/-!
# Sessions that share a store

Any number of sessions can have their global frames in one store, and their calls can come in any
order.  What one of them gives and binds is the same as if there were no calls on the others, and
no frame can ever be reached from two of them.

The frames of a session have other places in the store if no other session makes frames between
them.  `Shared.Follows` pairs the frames of the session with those that it has when it runs
alone, and every action keeps such pairs.

* `Shared.run`: the actions on the sessions of a store, one after the other.
* `Shared.Sound`: global frames from which no frame can be reached in common.
* `Shared.Follows`: a session among others, and the same session without calls on the others.
* `Shared.run_isolated` puts both together for whole runs.
-/

namespace TinyLisp

open Evaluation
open Session (forms fault?)

/-- The result as it is shown: the text of its value, or the error. -/
def SourceResult.shown (result : SourceResult) : Except SourceError (Option String) :=
  result.map (Option.map Value.render)

/-- A store and the global frames of the sessions in it, in the order in which they began. -/
structure Shared where
  store : Store
  roots : List Nat

/-- What can be done with a store and its sessions. -/
inductive Action where
  /-- Begins a session. -/
  | start
  /-- Evaluates a text in the session with this number. -/
  | eval (session : Nat) (text : String)

/-- The action is no call on another session. -/
def Action.concerns (session : Nat) : Action → Bool
  | start => true
  | eval other _ => other = session

namespace Shared

/-- No session has begun. -/
def empty : Shared := ⟨Store.empty, []⟩

/-- A session with its global frame in the store. -/
def session? (shared : Shared) (session : Nat) : Option Session :=
  shared.roots[session]?.map fun root => ⟨shared.store, root⟩

/-- One action.  A call gives the number of the session and a result. -/
def step (depth : Nat) (shared : Shared) : Action → Option (List (Nat × SourceResult) × Shared)
  | .start => some ([], ⟨shared.store.addGlobal, shared.roots ++ [shared.store.nextFrame]⟩)
  | .eval session text => do
    let (result, after) ← (← shared.session? session).eval depth text
    return ([(session, result)], { shared with store := after.store })

/-- Actions one after the other, if every call comes to an end. -/
def run (depth : Nat) (shared : Shared) : List Action → Option (List (Nat × SourceResult) × Shared)
  | [] => some ([], shared)
  | action :: rest => do
    let (results, between) ← shared.step depth action
    let (more, after) ← between.run depth rest
    return (results ++ more, after)

/-- What the calls on one session gave. -/
def answers (session : Nat) (results : List (Nat × SourceResult)) :
    List (Except SourceError (Option String)) :=
  (results.filter (·.1 = session)).map (·.2.shown)

/-- What the global frame of a session binds a name to, as it is shown. -/
def shown? (shared : Shared) (session : Nat) (name : String) : Option String :=
  ((shared.session? session).bind (·.get? name)).map Value.render

/-- No frame can be reached from the global frames of two sessions. -/
def Apart (shared : Shared) : Prop :=
  ∀ {m n first second frame : Nat}, m ≠ n → shared.roots[m]? = some first →
    shared.roots[n]? = some second → shared.store.Reaches (· = first) frame →
    ¬ shared.store.Reaches (· = second) frame

/-! ## Steps -/

variable {depth n : Nat} {shared after : Shared} {text : String}
  {results : List (Nat × SourceResult)}

theorem step_eval {root : Nat} {result : SourceResult} {session : Session}
    (hroot : shared.roots[n]? = some root)
    (heval : (⟨shared.store, root⟩ : Session).eval depth text = some (result, session)) :
    shared.step depth (.eval n text) =
      some ([(n, result)], { shared with store := session.store }) := by
  simp [step, session?, hroot, heval]

/-- A call evaluates the forms of its text in the global frame of the session. -/
theorem step_eval_eq_some_iff :
    shared.step depth (.eval n text) = some (results, after) ↔
      ∃ root answer store, shared.roots[n]? = some root ∧
        evalForms depth root none (forms text) shared.store = some (answer, store) ∧
        results = [(n, sourceResult answer (fault? text))] ∧ after = { shared with store } := by
  constructor
  · intro h
    simp only [step, Option.bind_eq_bind, Option.bind_eq_some_iff, session?,
      Option.map_eq_some_iff] at h
    obtain ⟨session, ⟨root, hroot, rfl⟩, ⟨result, next⟩, heval, hafter⟩ := h
    obtain ⟨answer, store, hforms, rfl, rfl⟩ := Session.eval_eq_some_iff.mp heval
    cases hafter
    exact ⟨root, answer, store, hroot, hforms, rfl, rfl⟩
  · rintro ⟨root, answer, store, hroot, hforms, rfl, rfl⟩
    exact step_eval hroot (Session.eval_eq_some_iff.mpr ⟨answer, store, hforms, rfl, rfl⟩)

/-- A session that has begun keeps its number. -/
theorem getElem?_append_of_some {roots : List Nat} {root : Nat} (h : roots[n]? = some root)
    (more : List Nat) : (roots ++ more)[n]? = some root :=
  (List.getElem?_append_left (List.getElem?_eq_some_iff.mp h).1).trans h

/-- After the beginning of a session, there are those that were there before and the new one. -/
theorem getElem?_roots_start {root : Nat}
    (h : (shared.roots ++ [shared.store.nextFrame])[n]? = some root) :
    shared.roots[n]? = some root ∨ n = shared.roots.length ∧ root = shared.store.nextFrame := by
  rw [List.getElem?_append] at h
  split at h
  · exact .inl h
  · rename_i hge
    right
    obtain ⟨hlt, heq⟩ := List.getElem?_eq_some_iff.mp h
    simp at hlt
    have : n = shared.roots.length := by omega
    subst this
    simp at heq
    exact ⟨rfl, heq.symm⟩

end Shared

/-! ## What other sessions can reach -/

namespace Store

variable {store after : Store} {sources : Nat → Prop} {root other frame : Nat}

/-- What can be reached stays the same if none of it changes. -/
theorem Reaches.of_kept (h : after.Reaches sources frame)
    (hkept : ∀ f, store.Reaches sources f → after.frames[f]? = store.frames[f]?) :
    store.Reaches sources frame :=
  h.of_closed ((closed_reaches store sources).congr hkept) fun _ => .source

/-- An evaluation that begins elsewhere makes nothing more reachable. -/
theorem Confines.reaches_other (h : store.Confines (· = root) after) (hstore : store.WellFormed)
    (hother : other < store.frames.size)
    (hapart : ∀ f, store.Reaches (· = other) f → ¬ store.Reaches (· = root) f)
    (hreaches : after.Reaches (· = other) frame) : store.Reaches (· = other) frame := by
  refine hreaches.of_kept fun f hf => h.kept f ?_ (hapart f hf)
  exact hstore.lt_of_reaches_frame hother hf

theorem lt_size_addGlobal (h : frame < store.frames.size) :
    frame < store.addGlobal.frames.size := by
  rw [addGlobal, size_push]
  exact Nat.lt_succ_of_lt h

/-- A new global frame makes nothing more reachable from an older frame. -/
theorem reaches_addGlobal (hstore : store.WellFormed) (hroot : root < store.frames.size)
    (h : store.addGlobal.Reaches (· = root) frame) : store.Reaches (· = root) frame :=
  h.of_kept fun _ hf => getElem?_push_of_lt (hstore.lt_of_reaches_frame hroot hf) _

/-- A global frame binds builtins only. -/
theorem not_captures_globalBindings {name : String} {value : Value}
    (hvalue : Bindings.get? name globalBindings = some value) (frame : Nat) :
    ¬ value.Captures frame := by
  have hnone : Store.empty.addGlobal.ForClosures fun _ => False := ForClosures.empty.addGlobal
  rintro ⟨closure, rfl, -⟩
  exact hnone 0 name _ hvalue

/-- From a new global frame no other frame can be reached. -/
theorem eq_of_reaches_nextFrame (h : store.addGlobal.Reaches (· = store.nextFrame) frame) :
    frame = store.nextFrame := by
  refine h.of_closed ⟨?_, ?_⟩ fun _ => id
  · rintro _ outer rfl houter
    rw [addGlobal, outer?_push_nextFrame] at houter
    cases houter
  · rintro _ name value inner rfl hvalue hcaptures
    rw [addGlobal, get?_push_nextFrame] at hvalue
    exact absurd hcaptures (not_captures_globalBindings hvalue inner)

/-- Forms do to a store what each evaluation in their frame may do. -/
theorem WellFormed.evalForms (hstore : store.WellFormed) (hroot : root < store.frames.size)
    {depth : Nat} {nodes : List Node} {answer : Except EvalError (Option Value)}
    (h : evalForms depth root none nodes store = some (answer, after)) :
    store.Confines (· = root) after ∧ after.Extends store := by
  have hnodes : List.Forall₂ (fun n m => (Pairing.inside store store
      (store.Reaches (· = root))).simulation.Nodes 0 root n root m) nodes nodes :=
    List.forall₂_same.mpr fun _ _ => ⟨.inl ⟨rfl, .source rfl⟩, rfl⟩
  have hrelates := Simulation.evalForms_relates depth .none hnodes
  have hsources : ∀ f, f = root → f < store.frames.size := by
    rintro f rfl
    exact hroot
  obtain ⟨made, hstores, -⟩ := Pairing.exists_stores hstore hsources hrelates h
  exact ⟨hstores.confines, hstores.extends⟩

end Store

/-! ## Sessions that stay apart -/

namespace Shared

/-- The store is well formed, and the global frames are frames of it from which no frame can be
reached in common. -/
structure Sound (shared : Shared) : Prop where
  wellFormed : shared.store.WellFormed
  lt_size : ∀ {n root : Nat}, shared.roots[n]? = some root → root < shared.store.frames.size
  apart : shared.Apart

namespace Sound

variable {depth n m root other frame : Nat} {shared : Shared} {nodes : List Node}
  {answer : Except EvalError (Option Value)} {store : Store}

theorem empty : Shared.empty.Sound where
  wellFormed := .empty
  lt_size h := by cases h
  apart _ h := by cases h

theorem start (h : shared.Sound) :
    (⟨shared.store.addGlobal, shared.roots ++ [shared.store.nextFrame]⟩ : Shared).Sound where
  wellFormed := h.wellFormed.addGlobal
  lt_size hroot := by
    rcases getElem?_roots_start hroot with hold | ⟨-, rfl⟩
    · exact Store.lt_size_addGlobal (h.lt_size hold)
    · simp [Store.addGlobal, Store.nextFrame]
  apart := by
    intro m n first second frame hne hfirst hsecond hreaches hreaches'
    have hold : ∀ {k root}, shared.roots[k]? = some root →
        shared.store.addGlobal.Reaches (· = root) frame → shared.store.Reaches (· = root) frame :=
      fun hroot => Store.reaches_addGlobal h.wellFormed (h.lt_size hroot)
    have hlt : ∀ {k root}, shared.roots[k]? = some root →
        shared.store.addGlobal.Reaches (· = root) frame → frame < shared.store.nextFrame :=
      fun hroot hreaches => h.wellFormed.lt_of_reaches_frame (h.lt_size hroot) (hold hroot hreaches)
    rcases getElem?_roots_start hfirst with hfirst | ⟨rfl, rfl⟩ <;>
      rcases getElem?_roots_start hsecond with hsecond | ⟨rfl, rfl⟩
    · exact h.apart hne hfirst hsecond (hold hfirst hreaches) (hold hsecond hreaches')
    · exact absurd (Store.eq_of_reaches_nextFrame hreaches') (Nat.ne_of_lt (hlt hfirst hreaches))
    · exact absurd (Store.eq_of_reaches_nextFrame hreaches) (Nat.ne_of_lt (hlt hsecond hreaches'))
    · exact hne rfl

/-- A call on one session makes nothing more reachable from another. -/
theorem reaches_other (h : shared.Sound) (hroot : shared.roots[n]? = some root)
    (hother : shared.roots[m]? = some other) (hne : m ≠ n)
    (heval : evalForms depth root none nodes shared.store = some (answer, store))
    (hreaches : store.Reaches (· = other) frame) : shared.store.Reaches (· = other) frame :=
  (h.wellFormed.evalForms (h.lt_size hroot) heval).1.reaches_other h.wellFormed (h.lt_size hother)
    (fun _ => h.apart hne hother hroot) hreaches

theorem eval (h : shared.Sound) (hroot : shared.roots[n]? = some root)
    (heval : evalForms depth root none nodes shared.store = some (answer, store)) :
    ({ shared with store } : Shared).Sound := by
  obtain ⟨hconfines, hextends⟩ := h.wellFormed.evalForms (h.lt_size hroot) heval
  -- What the session of the call reaches was its own before, or it is new.
  have hown : ∀ {k other frame}, k ≠ n → shared.roots[k]? = some other →
      store.Reaches (· = other) frame → ¬ store.Reaches (· = root) frame := by
    intro k other frame hne hother hreaches hreaches'
    have hold := h.reaches_other hroot hother hne heval hreaches
    rcases hconfines.reached frame hreaches' with hbefore | hmade
    · exact h.apart hne hother hroot hold hbefore
    · have hlt := h.wellFormed.lt_of_reaches_frame (h.lt_size hother) hold
      exact Nat.not_le_of_lt hlt hmade.1
  refine ⟨hextends.wellFormed, fun hk => Nat.lt_of_lt_of_le (h.lt_size hk) hextends.size_le, ?_⟩
  intro i j first second frame hne hfirst hsecond hreaches hreaches'
  by_cases hi : i = n
  · subst hi
    cases hroot.symm.trans hfirst
    exact hown hne.symm hsecond hreaches' hreaches
  · by_cases hj : j = n
    · subst hj
      cases hroot.symm.trans hsecond
      exact hown hi hfirst hreaches hreaches'
    · exact h.apart hne hfirst hsecond (h.reaches_other hroot hfirst hi heval hreaches)
        (h.reaches_other hroot hsecond hj heval hreaches')

end Sound

/-! ## A session among others -/

/-- The frames of a session among others are paired with its frames when there are no calls on the
others.  From the global frames of the others no frame of a pair can be reached. -/
structure Follows (session : Nat) (pairs : Nat → Nat → Prop) (shared own : Shared) : Prop where
  wellFormed : own.store.WellFormed
  length_eq : shared.roots.length = own.roots.length
  mirrors : shared.store.Mirrors (fun _ _ => True) pairs own.store
  root : ∀ {root : Nat}, shared.roots[session]? = some root →
    ∃ partner, own.roots[session]? = some partner ∧ pairs root partner
  free : ∀ {n root frame partner : Nat}, n ≠ session → shared.roots[n]? = some root →
    shared.store.Reaches (· = root) frame → ¬ pairs frame partner

/-- The runs on two stores, whose frames are in these pairs at first. -/
def beside (shared own : Shared) (pairs : Nat → Nat → Prop) : Pairing where
  left := shared.store
  right := own.store
  pairs := pairs
  same _ _ := True

theorem map_render_eq {same pairs : Nat → Nat → Prop} {x y : Option Value}
    (h : Option.Rel (Value.Related (Closure.Corresponds same pairs)) x y) :
    x.map Value.render = y.map Value.render := by
  cases h with
  | none => rfl
  | some h => exact congrArg some h.render_eq

theorem globalBindings_related {pairs : Nat → Nat → Prop} :
    Bindings.Related (Closure.Corresponds (fun _ _ => True) pairs) Store.globalBindings
      Store.globalBindings := by
  intro name
  cases hvalue : Bindings.get? name Store.globalBindings with
  | none => exact .none
  | some value =>
    exact .some (Pairing.related_self (fun _ => trivial) fun f hf =>
      absurd hf (Store.not_captures_globalBindings hvalue f))

namespace Follows

variable {session depth n root : Nat} {pairs : Nat → Nat → Prop} {shared own : Shared}
  {nodes : List Node} {answer : Except EvalError (Option Value)} {store : Store}

theorem empty (session : Nat) : Follows session (fun _ _ => False) Shared.empty Shared.empty where
  wellFormed := .empty
  length_eq := rfl
  mirrors := ⟨False.elim, False.elim⟩
  root h := by cases h
  free _ h := by cases h

/-- A call on another session. -/
theorem eval_other (h : Follows session pairs shared own) (hsound : shared.Sound)
    (hne : n ≠ session) (hroot : shared.roots[n]? = some root)
    (heval : evalForms depth root none nodes shared.store = some (answer, store)) :
    Follows session pairs { shared with store } own := by
  obtain ⟨hconfines, -⟩ := hsound.wellFormed.evalForms (hsound.lt_size hroot) heval
  refine ⟨h.wellFormed, h.length_eq, h.mirrors.congr (fun f g hpair => ?_) (fun _ _ _ => rfl),
    h.root, fun {m other frame partner} hm hother hreaches hpair => ?_⟩
  · exact hconfines.kept f (h.mirrors.lt_left hpair) fun hreaches => h.free hne hroot hreaches hpair
  · by_cases hmn : m = n
    · subst hmn
      cases hroot.symm.trans hother
      rcases hconfines.reached frame hreaches with hbefore | hmade
      · exact h.free hm hother hbefore hpair
      · exact Nat.not_le_of_lt (h.mirrors.lt_left hpair) hmade.1
    · exact h.free hm hother (hsound.reaches_other hroot hother hmn heval hreaches) hpair

/-- What two runs of the session have become. -/
theorem of_stores (h : Follows session pairs shared own) (hsound : shared.Sound)
    (hroot : shared.roots[session]? = some root)
    (heval : evalForms depth root none nodes shared.store = some (answer, store)) {made : Nat}
    {after : Store} (hstores : (beside shared own pairs).Stores made store after) :
    Follows session ((beside shared own pairs).Frames made) { shared with store }
      { own with store := after } where
  wellFormed := hstores.wellFormed_right
  length_eq := h.length_eq
  mirrors := hstores.mirrors
  root hother := by
    obtain ⟨partner, hpartner, hpair⟩ := h.root hother
    exact ⟨partner, hpartner, .inl hpair⟩
  free := by
    intro n other frame partner hne hother hreaches hpair
    have hold := hsound.reaches_other hroot hother hne heval hreaches
    rcases hpair with hpair | ⟨i, -, rfl, -⟩
    · exact h.free hne hother hold hpair
    · have hlt := hsound.wellFormed.lt_of_reaches_frame (hsound.lt_size hother) hold
      exact Nat.not_le_of_lt hlt (Nat.le_add_right _ i)

/-- A call on the session itself gives the same when there are no calls on the others. -/
theorem eval_self (h : Follows session pairs shared own) (hsound : shared.Sound)
    (hroot : shared.roots[session]? = some root)
    (heval : evalForms depth root none nodes shared.store = some (answer, store)) :
    ∃ partner response after more, own.roots[session]? = some partner ∧
      evalForms depth partner none nodes own.store = some (response, after) ∧
      answer.map (Option.map Value.render) = response.map (Option.map Value.render) ∧
      Follows session more { shared with store } { own with store := after } := by
  obtain ⟨partner, hpartner, hpair⟩ := h.root hroot
  have hstart : (beside shared own pairs).Stores 0 shared.store own.store :=
    ⟨hsound.wellFormed, h.wellFormed, Pairing.frames_zero ▸ h.mirrors, .refl _ _, .refl _ _,
      fun _ => trivial⟩
  have hnodes : List.Forall₂ (fun n m => (beside shared own pairs).simulation.Nodes 0 root n
      partner m) nodes nodes :=
    List.forall₂_same.mpr fun _ _ => ⟨.inl hpair, rfl⟩
  have hanswers := Simulation.evalForms_relates depth .none hnodes _ _ hstart
  rw [heval] at hanswers
  generalize hrun : evalForms depth partner none nodes own.store = run at hanswers
  cases hanswers with
  | some hanswers =>
    cases hanswers with
    | error _ hstores herror =>
      have hfollows := h.of_stores hsound hroot heval hstores
      exact ⟨partner, _, _, _, hpartner, hrun, congrArg Except.error herror, hfollows⟩
    | value _ hstores hvalue =>
      have hfollows := h.of_stores hsound hroot heval hstores
      exact ⟨partner, _, _, _, hpartner, hrun, congrArg Except.ok (map_render_eq hvalue), hfollows⟩

/-- Another session begins. -/
theorem start_other (h : Follows session pairs shared own) (hsound : shared.Sound)
    (hne : session ≠ shared.roots.length) :
    Follows session pairs ⟨shared.store.addGlobal, shared.roots ++ [shared.store.nextFrame]⟩
      ⟨own.store.addGlobal, own.roots ++ [own.store.nextFrame]⟩ where
  wellFormed := h.wellFormed.addGlobal
  length_eq := by rw [List.length_append, List.length_append, h.length_eq]; rfl
  mirrors := h.mirrors.congr
    (fun _ _ hpair => Store.getElem?_push_of_lt (h.mirrors.lt_left hpair) _)
    (fun _ _ hpair => Store.getElem?_push_of_lt (h.mirrors.lt_right hpair) _)
  root hroot := by
    rcases getElem?_roots_start hroot with hold | ⟨heq, -⟩
    · obtain ⟨partner, hpartner, hpair⟩ := h.root hold
      exact ⟨partner, getElem?_append_of_some hpartner _, hpair⟩
    · exact absurd heq hne
  free := by
    intro n root frame partner hn hroot hreaches hpair
    rcases getElem?_roots_start hroot with hold | ⟨-, rfl⟩
    · have hbefore := Store.reaches_addGlobal hsound.wellFormed (hsound.lt_size hold) hreaches
      exact h.free hn hold hbefore hpair
    · have heq := Store.eq_of_reaches_nextFrame hreaches
      exact absurd heq (Nat.ne_of_lt (h.mirrors.lt_left hpair))

/-- The session itself begins. -/
theorem start_self (h : Follows session pairs shared own) (hsound : shared.Sound)
    (heq : session = shared.roots.length) :
    Follows session
      (fun f g => pairs f g ∨ f = shared.store.nextFrame ∧ g = own.store.nextFrame)
      ⟨shared.store.addGlobal, shared.roots ++ [shared.store.nextFrame]⟩
      ⟨own.store.addGlobal, own.roots ++ [own.store.nextFrame]⟩ where
  wellFormed := h.wellFormed.addGlobal
  length_eq := by rw [List.length_append, List.length_append, h.length_eq]; rfl
  mirrors := h.mirrors.push (fun _ _ => Iff.rfl) ⟨.none, globalBindings_related⟩
  root hroot := by
    rcases getElem?_roots_start hroot with hold | ⟨-, rfl⟩
    · obtain ⟨partner, hpartner, hpair⟩ := h.root hold
      exact ⟨partner, getElem?_append_of_some hpartner _, .inl hpair⟩
    · refine ⟨own.store.nextFrame, ?_, .inr ⟨rfl, rfl⟩⟩
      rw [heq, h.length_eq]
      simp
  free := by
    intro n root frame partner hn hroot hreaches hpair
    rcases getElem?_roots_start hroot with hold | ⟨hlength, -⟩
    · have hbefore := Store.reaches_addGlobal hsound.wellFormed (hsound.lt_size hold) hreaches
      rcases hpair with hpair | ⟨rfl, -⟩
      · exact h.free hn hold hbefore hpair
      · exact Nat.lt_irrefl _
          (hsound.wellFormed.lt_of_reaches_frame (hsound.lt_size hold) hbefore)
    · exact hn (hlength.trans heq.symm)

end Follows

/-! ## Runs -/

section Runs

variable {depth session : Nat} {shared own after : Shared} {pairs : Nat → Nat → Prop}
  {results : List (Nat × SourceResult)} {action : Action} {actions before : List Action}

theorem Sound.step (h : shared.Sound) (hstep : shared.step depth action = some (results, after)) :
    after.Sound := by
  cases action with
  | start =>
    cases hstep
    exact h.start
  | eval n text =>
    obtain ⟨root, answer, store, hroot, heval, -, rfl⟩ := step_eval_eq_some_iff.mp hstep
    exact h.eval hroot heval

/-- Results whose answers are shown alike are shown alike. -/
theorem shown_sourceResult {answer response : Except EvalError (Option Value)}
    (h : answer.map (Option.map Value.render) = response.map (Option.map Value.render))
    (fault : Option ReadError) :
    (sourceResult answer fault).shown = (sourceResult response fault).shown := by
  match answer, response with
  | .error error, .error other =>
    cases h
    rfl
  | .ok value, .ok other =>
    have hvalue : value.map Value.render = other.map Value.render := Except.ok.inj h
    cases fault with
    | none => exact congrArg Except.ok hvalue
    | some => rfl

theorem run_singleton (shared : Shared) (depth : Nat) (action : Action) :
    shared.run depth [action] = shared.step depth action := by
  rw [run]
  cases shared.step depth action with
  | none => rfl
  | some outcome => simp [run]

/-- One action, and the same action when there are no calls on other sessions. -/
theorem Follows.step (h : Follows session pairs shared own) (hsound : shared.Sound)
    (hstep : shared.step depth action = some (results, after)) :
    ∃ alone next more, own.run depth ([action].filter (·.concerns session)) = some (alone, next) ∧
      answers session results = answers session alone ∧ Follows session more after next := by
  cases action with
  | start =>
    cases hstep
    by_cases heq : session = shared.roots.length
    · exact ⟨[], _, _, rfl, rfl, h.start_self hsound heq⟩
    · exact ⟨[], _, _, rfl, rfl, h.start_other hsound heq⟩
  | eval n text =>
    obtain ⟨root, answer, store, hroot, heval, rfl, rfl⟩ := step_eval_eq_some_iff.mp hstep
    by_cases heq : n = session
    · subst heq
      obtain ⟨partner, response, next, more, hpartner, hrun, hshown, hfollows⟩ :=
        h.eval_self hsound hroot heval
      have hown : own.step depth (.eval n text) = _ :=
        step_eval_eq_some_iff.mpr ⟨partner, response, next, hpartner, hrun, rfl, rfl⟩
      refine ⟨[(n, sourceResult response (fault? text))], _, more, ?_, ?_, hfollows⟩
      · simpa [Action.concerns, run_singleton] using hown
      · simp [answers, shown_sourceResult hshown]
    · refine ⟨[], own, pairs, ?_, ?_, h.eval_other hsound heq hroot heval⟩
      · simp [Action.concerns, heq, run]
      · simp [answers, heq]

theorem run_append (shared : Shared) (depth : Nat) (actions more : List Action) :
    shared.run depth (actions ++ more) = (do
      let (results, between) ← shared.run depth actions
      let (rest, after) ← between.run depth more
      return (results ++ rest, after)) := by
  induction actions generalizing shared with
  | nil => cases hmore : shared.run depth more <;> simp [run, hmore]
  | cons action actions ih => simp [run, ih, Option.bind_assoc]

theorem run_append_eq_some_iff {more : List Action} :
    shared.run depth (actions ++ more) = some (results, after) ↔
      ∃ first between rest, shared.run depth actions = some (first, between) ∧
        between.run depth more = some (rest, after) ∧ results = first ++ rest := by
  simp only [run_append, Option.bind_eq_bind, Option.bind_eq_some_iff]
  constructor
  · rintro ⟨⟨first, between⟩, hfirst, ⟨rest, last⟩, hrest, hafter⟩
    cases hafter
    exact ⟨first, between, rest, hfirst, hrest, rfl⟩
  · rintro ⟨first, between, rest, hfirst, hrest, rfl⟩
    exact ⟨(first, between), hfirst, (rest, after), hrest, rfl⟩

theorem answers_append (session : Nat) (results more : List (Nat × SourceResult)) :
    answers session (results ++ more) = answers session results ++ answers session more := by
  simp [answers]

theorem run_cons_eq_some_iff :
    shared.run depth (action :: actions) = some (results, after) ↔
      ∃ first between rest, shared.step depth action = some (first, between) ∧
        between.run depth actions = some (rest, after) ∧ results = first ++ rest := by
  rw [← List.singleton_append, run_append_eq_some_iff, run_singleton]

theorem Sound.run (h : shared.Sound) (hrun : shared.run depth actions = some (results, after)) :
    after.Sound := by
  induction actions generalizing shared results with
  | nil =>
    cases hrun
    exact h
  | cons action actions ih =>
    obtain ⟨first, between, rest, hstep, hrest, -⟩ := run_cons_eq_some_iff.mp hrun
    exact ih (h.step hstep) hrest

/-- A run, and the same run without the calls on other sessions. -/
theorem Follows.run (h : Follows session pairs shared own) (hsound : shared.Sound)
    (hrun : shared.run depth actions = some (results, after)) :
    ∃ alone next more, own.run depth (actions.filter (·.concerns session)) = some (alone, next) ∧
      answers session results = answers session alone ∧ Follows session more after next := by
  induction actions generalizing shared own pairs results with
  | nil =>
    cases hrun
    exact ⟨[], own, pairs, rfl, rfl, h⟩
  | cons action actions ih =>
    obtain ⟨first, between, rest, hstep, hrest, rfl⟩ := run_cons_eq_some_iff.mp hrun
    obtain ⟨one, next, more, hone, hfirst, hfollows⟩ := h.step hsound hstep
    obtain ⟨alone, last, most, halone, hlast, hend⟩ := ih hfollows (hsound.step hstep) hrest
    refine ⟨one ++ alone, last, most, ?_, ?_, hend⟩
    · rw [← List.singleton_append, List.filter_append]
      exact run_append_eq_some_iff.mpr ⟨one, next, alone, hone, halone, rfl⟩
    · rw [answers_append, answers_append, hfirst, hlast]

/-- A session shows the same bindings as it does without calls on the others. -/
theorem Follows.shown?_eq (h : Follows session pairs shared own) (name : String) :
    shared.shown? session name = own.shown? session name := by
  cases hroot : shared.roots[session]? with
  | none =>
    have hpartner : own.roots[session]? = none := by
      rw [List.getElem?_eq_none_iff, ← h.length_eq]
      exact List.getElem?_eq_none_iff.mp hroot
    simp [shown?, session?, hroot, hpartner]
  | some root =>
    obtain ⟨partner, hpartner, hpair⟩ := h.root hroot
    simpa [shown?, session?, hroot, hpartner, Session.get?] using
      map_render_eq (h.mirrors.get? hpair name)

/-- Sessions share nothing.  The calls on a session give what they give without the calls on the
other sessions, and leave the same names bound in its global frame to values that are shown alike.
At no time can a frame be reached from the global frames of two sessions. -/
theorem run_isolated (h : empty.run depth actions = some (results, after)) :
    (∀ session, ∃ alone own,
      empty.run depth (actions.filter (·.concerns session)) = some (alone, own) ∧
        answers session results = answers session alone ∧
        ∀ name, after.shown? session name = own.shown? session name) ∧
    ∀ before, before <+: actions → ∃ first between,
      empty.run depth before = some (first, between) ∧ between.Apart := by
  refine ⟨fun session => ?_, fun before hprefix => ?_⟩
  · obtain ⟨alone, own, pairs, hrun, hanswers, hfollows⟩ :=
      (Follows.empty session).run Sound.empty h
    exact ⟨alone, own, hrun, hanswers, hfollows.shown?_eq⟩
  · obtain ⟨rest, rfl⟩ := hprefix
    obtain ⟨first, between, -, hrun, -, -⟩ := run_append_eq_some_iff.mp h
    exact ⟨first, between, hrun, (Sound.empty.run hrun).apart⟩

end Runs

/-- Two sessions begin, the first binds a name, and the second looks it up. -/
def mixed : List Action :=
  [.start, .start, .eval 0 "(define x 1)", .eval 1 "x"]

/-- The name that the first session binds is unbound in the second. -/
def mixedResults : List (Nat × SourceResult) :=
  [(0, .ok (some (.number 1))), (1, .error (.eval ⟨.unboundName "x", ⟨0, 1⟩⟩))]

theorem mixed_isolated :
    ∃ after, empty.run 2 mixed = some (mixedResults, after) ∧
      (∀ session, ∃ alone own,
        empty.run 2 (mixed.filter (·.concerns session)) = some (alone, own) ∧
          answers session mixedResults = answers session alone ∧
          ∀ name, after.shown? session name = own.shown? session name) ∧
      after.Apart := by
  have hbinds : (⟨Store.empty.addGlobal.addGlobal, 0⟩ : Session).eval 2 "(define x 1)" =
      some (.ok (some (.number 1)),
        ⟨Store.empty.addGlobal.addGlobal.set 0 "x" (.number 1), 0⟩) :=
    Session.eval_of_read
      (.list [.symbol "define" ⟨1, 7⟩, .symbol "x" ⟨8, 9⟩, .number 1 ⟨10, 11⟩] ⟨0, 12⟩)
      (.ok (.number 1)) (by rfl) (by with_unfolding_all rfl)
  have hlooks : (⟨Store.empty.addGlobal.addGlobal.set 0 "x" (.number 1), 1⟩ : Session).eval 2 "x" =
      some (.error (.eval ⟨.unboundName "x", ⟨0, 1⟩⟩),
        ⟨Store.empty.addGlobal.addGlobal.set 0 "x" (.number 1), 1⟩) :=
    Session.eval_of_read (.symbol "x" ⟨0, 1⟩) (.error ⟨.unboundName "x", ⟨0, 1⟩⟩) (by rfl)
      (by with_unfolding_all rfl)
  have hrun : empty.run 2 mixed = some (mixedResults,
      ⟨Store.empty.addGlobal.addGlobal.set 0 "x" (.number 1), [0, 1]⟩) := by
    refine run_cons_eq_some_iff.mpr ⟨[], _, _, rfl, ?_, rfl⟩
    refine run_cons_eq_some_iff.mpr ⟨[], _, mixedResults, rfl, ?_, rfl⟩
    refine run_cons_eq_some_iff.mpr ⟨_, _, _, step_eval rfl hbinds, ?_, rfl⟩
    exact run_cons_eq_some_iff.mpr ⟨_, _, [], step_eval rfl hlooks, rfl, rfl⟩
  obtain ⟨hsessions, hapart⟩ := run_isolated hrun
  obtain ⟨first, between, hall, hbetween⟩ := hapart mixed List.prefix_rfl
  cases hrun.symm.trans hall
  exact ⟨_, hrun, hsessions, hbetween⟩

end Shared
end TinyLisp
