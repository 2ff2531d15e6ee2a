import TinyLisp.Proofs.Chains
import TinyLisp.Proofs.Pairing
import TinyLisp.Proofs.Sessions

/-!
# Frames are encapsulated

An evaluation changes only frames that can be reached from the frame where it begins, and it makes
nothing reachable from there but what was before and the frames that it makes.  The same holds for
a call, which begins from the frame of the closure and from the frames of its arguments.  So a
frame that cannot be reached is neither read nor changed.

Both facts come from pairing a store with itself, or with one that differs in an unreachable frame:
only the frames that can be reached get a partner.

* `Store.Encapsulates`: what an evaluation leaves of a store.
* `Ignores`: an evaluation neither reads nor changes a frame.
* `Store.Leads`: the stores that come after one, and what holds of the frames of two calls.
* `Store.WellFormed.encapsulated` puts all of this together.
-/

namespace TinyLisp

open Evaluation

/-! ## Calls and frames -/

/-- The frames from which a call begins: that of the closure, and those of its arguments. -/
def Sources (closure : Closure) (arguments : List Value) (frame : Nat) : Prop :=
  closure.frame = frame ∨ ∃ argument ∈ arguments, argument.Captures frame

namespace Store

/-- The closure and the arguments of a call capture frames of the store. -/
structure CanCall (store : Store) (closure : Closure) (arguments : List Value) : Prop where
  closure : closure.frame < store.frames.size
  arguments : ∀ argument ∈ arguments, argument.Within store.frames.size

/-- The store where the body of a closure is evaluated.  The last frame is that of the call. -/
def entered (store : Store) (closure : Closure) (arguments : List Value) : Store :=
  store.push ⟨some closure.frame, Bindings.ofPairs (closure.parameters.zip arguments)⟩

/-- The frame was made after the first store, and it is in the second. -/
def Made (store after : Store) (frame : Nat) : Prop :=
  store.frames.size ≤ frame ∧ frame < after.frames.size

/-- What an evaluation that begins from `sources` does to a store.  Frames that cannot be reached
are left alone.  What can be reached afterwards from the sources and from the frames that were
made could be reached before or was made. -/
structure Confines (store : Store) (sources : Nat → Prop) (after : Store) : Prop where
  kept : ∀ frame < store.frames.size, ¬ store.Reaches sources frame →
    after.frames[frame]? = store.frames[frame]?
  reached : ∀ frame, after.Reaches sources frame →
    store.Reaches sources frame ∨ store.Made after frame
  made : ∀ frame, after.Reaches (store.Made after) frame →
    store.Reaches sources frame ∨ store.Made after frame

/-- What can be reached from the value of an evaluation is confined as well. -/
structure Encapsulates (store : Store) (sources : Nat → Prop) (result : Except EvalError Value)
    (after : Store) : Prop extends store.Confines sources after where
  returned : ∀ value, result = .ok value → ∀ frame, after.Reaches value.Captures frame →
    store.Reaches sources frame ∨ store.Made after frame

/-- The stores have as many frames and closures, and their frames enclose each other alike and bind
the same names to the same values. -/
structure Agrees (S T : Store) : Prop where
  size : S.frames.size = T.frames.size
  closures : S.closures = T.closures
  outer? : ∀ frame, S.outer? frame = T.outer? frame
  get? : ∀ frame name, S.get? frame name = T.get? frame name

/-- A well-formed store with the frames of another, each enclosed as in the other. -/
structure Extends (after store : Store) : Prop where
  wellFormed : after.WellFormed
  size_le : store.frames.size ≤ after.frames.size
  outer? : ∀ frame < store.frames.size, after.outer? frame = store.outer? frame

/-- A call with as many arguments as parameters evaluates the body in the new frame. -/
theorem apply_closure (depth : Nat) (store : Store) {closure : Closure} {arguments : List Value}
    (hcount : arguments.length = closure.parameters.length) (span : Span) :
    apply depth (.closure closure) arguments span store =
      eval depth store.nextFrame closure.body (store.entered closure arguments) := by
  simp only [apply, Eval.apply, Eval.callClosure, if_pos hcount, Eval.enterFrame, bind_apply,
    modifyGet_apply]
  rfl

theorem CanCall.lt_of_sources {store : Store} {closure : Closure} {arguments : List Value}
    (h : store.CanCall closure arguments) {frame : Nat}
    (hsource : Sources closure arguments frame) : frame < store.frames.size := by
  rcases hsource with rfl | ⟨argument, hmem, closure, rfl, rfl⟩
  · exact h.closure
  · exact h.arguments _ hmem

end Store

/-- What a frame binds has no influence on the evaluation, and the evaluation does not change the
frame. -/
structure Ignores (evaluation : Evaluation Value) (store : Store) (frame : Nat) : Prop where
  unchanged : ∀ result after, evaluation store = some (result, after) →
    after.frames[frame]? = store.frames[frame]?
  unread : ∀ name value, value.Within store.frames.size →
    Option.Rel (fun first second => first.1 = second.1 ∧
        second.2.Agrees (first.2.set frame name value))
      (evaluation store) (evaluation (store.set frame name value))

/-! ## A store beside itself -/

namespace Pairing

variable {store other : Store} {frames : Nat → Prop} {made : Nat} {S T : Store}

/-- Each of the frames is paired with itself. -/
def inside (store other : Store) (frames : Nat → Prop) : Pairing where
  left := store
  right := other
  pairs f g := f = g ∧ frames f
  same := Eq

/-- A frame that has a partner. -/
theorem frames_inside_iff (hsize : store.frames.size = other.frames.size) {f g : Nat} :
    (inside store other frames).Frames made f g ↔
      f = g ∧ (frames f ∨ store.frames.size ≤ f ∧ f < store.frames.size + made) := by
  simp only [Frames, inside, Store.nextFrame, ← hsize]
  constructor
  · rintro (⟨rfl, hframe⟩ | ⟨i, hlt, rfl, rfl⟩)
    · exact ⟨rfl, .inl hframe⟩
    · exact ⟨rfl, .inr ⟨by omega, by omega⟩⟩
  · rintro ⟨rfl, hframe | ⟨hle, hlt⟩⟩
    · exact .inl ⟨rfl, hframe⟩
    · exact .inr ⟨f - store.frames.size, by omega, by omega, by omega⟩

/-- Values that correspond when each frame is its own partner are the same. -/
theorem eq_of_related {pairs : Nat → Nat → Prop} (hpairs : ∀ {f g}, pairs f g → f = g)
    {x y : Value} (h : x.Related (Closure.Corresponds Eq pairs) y) : x = y := by
  cases h with
  | number => rfl
  | procedure h =>
    cases h with
    | builtin => rfl
    | @closure c d h =>
      obtain ⟨i, names, body, f⟩ := c
      obtain ⟨j, others, code, g⟩ := d
      obtain ⟨hidentity, hnames, hbody, hframe⟩ := h
      cases hidentity
      cases hnames
      cases hbody
      cases hpairs hframe
      rfl

/-- A value corresponds to itself if its frame does. -/
theorem related_self {same pairs : Nat → Nat → Prop} {value : Value} (hsame : ∀ i, same i i)
    (h : ∀ f, value.Captures f → pairs f f) :
    value.Related (Closure.Corresponds same pairs) value := by
  cases value with
  | number => exact .number
  | procedure p =>
    cases p with
    | builtin => exact .procedure .builtin
    | closure c => exact .procedure (.closure ⟨hsame _, rfl, rfl, h c.frame ⟨c, rfl, rfl⟩⟩)

theorem captures_of_related {same pairs : Nat → Nat → Prop} {x y : Value}
    (h : x.Related (Closure.Corresponds same pairs) y) {frame : Nat}
    (hcaptures : x.Captures frame) : ∃ g, pairs frame g := by
  obtain ⟨closure, rfl, rfl⟩ := hcaptures
  cases h with
  | procedure h =>
    cases h with
    | closure h => exact ⟨_, h.frame⟩

theorem mirrors_inside (hclosed : store.Closed frames)
    (hlt : ∀ f, frames f → f < store.frames.size)
    (hsame : ∀ f, frames f → other.frames[f]? = store.frames[f]?) :
    store.Mirrors Eq (inside store other frames).pairs other where
  unique := by
    rintro f g f' g' ⟨rfl, -⟩ ⟨rfl, -⟩
    rfl
  frame := by
    rintro f g ⟨rfl, hframe⟩
    obtain ⟨a, hat⟩ : ∃ a, store.frames[f]? = some a :=
      ⟨_, Array.getElem?_eq_getElem (hlt f hframe)⟩
    have houter : store.outer? f = a.outer := by simp [Store.outer?, hat]
    have hget : ∀ name, store.get? f name = a.bindings.get? name := by simp [Store.get?, hat]
    refine ⟨a, a, hat, (hsame f hframe).trans hat, ?_, fun name => ?_⟩
    · cases ho : a.outer with
      | none => exact .none
      | some outer => exact .some ⟨rfl, hclosed.outer hframe (houter.trans ho)⟩
    · cases hv : a.bindings.get? name with
      | none => exact .none
      | some value =>
        exact .some (related_self (fun _ => rfl) fun g hg =>
          ⟨rfl, hclosed.captured hframe ((hget name).trans hv) hg⟩)

/-- The first stores of two runs of which only the frames outside of a closed set differ. -/
theorem stores_inside (hS : store.WellFormed) (hT : other.WellFormed)
    (hclosed : store.Closed frames) (hlt : ∀ f, frames f → f < store.frames.size)
    (hsame : ∀ f, frames f → other.frames[f]? = store.frames[f]?)
    (hclosures : store.closures = other.closures) :
    (inside store other frames).Stores 0 store other where
  wellFormed_left := hS
  wellFormed_right := hT
  mirrors := by
    rw [frames_zero]
    exact mirrors_inside hclosed hlt hsame
  keeps_left := .refl _ _
  keeps_right := .refl _ _
  same i := congrArg (· + i) hclosures

/-- A frame that a store paired with itself gives a partner. -/
theorem exists_frames_inside_iff (h : (inside store store frames).Stores made S T) (frame : Nat) :
    (∃ g, (inside store store frames).Frames made frame g) ↔
      frames frame ∨ store.Made S frame := by
  have hsize : S.frames.size = store.frames.size + made := h.keeps_left.size
  simp [frames_inside_iff, Store.Made, hsize]

variable {sources : Nat → Prop}

/-- Nothing leads out of what could be reached and what was made. -/
theorem Stores.reaches (h : (inside store store (store.Reaches sources)).Stores made S T)
    {starts : Nat → Prop} (hstarts : ∀ f, starts f → store.Reaches sources f ∨ store.Made S f)
    {frame : Nat} (hreaches : S.Reaches starts frame) :
    store.Reaches sources frame ∨ store.Made S frame := by
  have hpartner := exists_frames_inside_iff h
  have hall := hreaches.of_closed h.mirrors.closed fun f hf => (hpartner f).mpr (hstarts f hf)
  exact (hpartner frame).mp hall

theorem Stores.confines (h : (inside store store (store.Reaches sources)).Stores made S T) :
    store.Confines sources S where
  kept frame hlt hfree := h.keeps_left.kept frame hlt fun ⟨_, _, hreaches⟩ => hfree hreaches
  reached _ := h.reaches fun _ hf => .inl (.source hf)
  made _ := h.reaches fun _ hf => .inr hf

theorem Stores.extends (h : (inside store other frames).Stores made S T) : S.Extends store where
  wellFormed := h.wellFormed_left
  size_le := by
    rw [h.keeps_left.size]
    exact Nat.le_add_right _ made
  outer? := h.keeps_left.outer?

section Agrees

variable {frame : Nat} {name : String} {value : Value}
  (h : (inside store (store.set frame name value) frames).Stores made S T)

include h

theorem Stores.size_eq :
    S.frames.size = store.frames.size + made ∧ T.frames.size = store.frames.size + made := by
  refine ⟨h.keeps_left.size, h.keeps_right.size.trans ?_⟩
  exact congrArg (· + made) (Store.size_set ..)

/-- Frames that have a partner enclose each other alike and bind the same values. -/
theorem Stores.eq_of_partner {f : Nat}
    (hf : frames f ∨ store.frames.size ≤ f ∧ f < store.frames.size + made) :
    T.outer? f = S.outer? f ∧ ∀ wanted, T.get? f wanted = S.get? f wanted := by
  have hsizes := (Store.size_set store frame name value).symm
  have hpair : (inside store (store.set frame name value) frames).Frames made f f :=
    (frames_inside_iff hsizes).mpr ⟨rfl, hf⟩
  have hold : ∀ {f g}, (inside store (store.set frame name value) frames).Frames made f g →
      f = g :=
    fun hpair => ((frames_inside_iff hsizes).mp hpair).1
  refine ⟨?_, fun wanted => ?_⟩
  · exact (Option.eq_of_rel (fun _ _ => hold) (h.mirrors.outer? hpair)).symm
  · have hget := h.mirrors.get? hpair wanted
    exact (Option.eq_of_rel (fun _ _ => eq_of_related hold) hget).symm

theorem Stores.agrees_outer? (f : Nat) : T.outer? f = S.outer? f := by
  obtain ⟨hleft, hright⟩ := h.size_eq
  rcases Nat.lt_or_ge f store.frames.size with hin | hout
  · have hin' : f < (store.set frame name value).frames.size := by
      rwa [Store.size_set]
    rw [h.keeps_left.outer? f hin, h.keeps_right.outer? f hin']
    exact Store.outer?_set ..
  · rcases Nat.lt_or_ge f (store.frames.size + made) with hmade | hmissing
    · exact (h.eq_of_partner (.inr ⟨hout, hmade⟩)).1
    · rw [Store.outer?_eq_none (hright ▸ hmissing), Store.outer?_eq_none (hleft ▸ hmissing)]

theorem Stores.agrees_get? (hfree : ¬ frames frame) (hlt : frame < store.frames.size) (f : Nat)
    (wanted : String) : T.get? f wanted = (S.set frame name value).get? f wanted := by
  obtain ⟨hleft, hright⟩ := h.size_eq
  have hpartner : (frames f ∨ store.frames.size ≤ f ∧ f < store.frames.size + made) →
      frame ≠ f → T.get? f wanted = (S.set frame name value).get? f wanted := by
    intro hf hne
    rw [Store.get?_set, if_neg fun hall => hne hall.1, (h.eq_of_partner hf).2]
  rcases Nat.lt_or_ge f store.frames.size with hin | hout
  · by_cases hf : frames f
    · exact hpartner (.inl hf) fun heq => hfree (heq ▸ hf)
    · -- Without a partner, the frame is still what it was at first.
      have hin' : f < (store.set frame name value).frames.size := by
        rwa [Store.size_set]
      have hS := h.keeps_left.kept f hin fun ⟨_, _, hpair⟩ => hf hpair
      have hT := h.keeps_right.kept f hin' fun ⟨_, heq, hpair⟩ => hf (heq ▸ hpair)
      have hinS : f < S.frames.size := by omega
      rw [Store.get?_congr hT wanted, Store.get?_set S, Store.get?_congr hS wanted]
      simp [inside, Store.get?_set, hin, hinS]
  · rcases Nat.lt_or_ge f (store.frames.size + made) with hmade | hmissing
    · exact hpartner (.inr ⟨hout, hmade⟩) (by omega)
    · have hmissing' : (S.set frame name value).frames.size ≤ f := by
        rwa [Store.size_set, hleft]
      rw [Store.get?_eq_none (hright ▸ hmissing), Store.get?_eq_none hmissing']

/-- What two stores that differed in one binding of an unreachable frame have become. -/
theorem Stores.agrees (hfree : ¬ frames frame) (hlt : frame < store.frames.size) :
    T.Agrees (S.set frame name value) where
  size := by rw [h.size_eq.2, Store.size_set, h.size_eq.1]
  closures := (h.same 0).symm
  outer? f := by rw [Store.outer?_set, h.agrees_outer?]
  get? := h.agrees_get? hfree hlt

end Agrees

variable {α : Type} {R : Nat → α → α → Prop} {result : Except EvalError α} {after : Store}

/-- What becomes of a store that is paired with itself. -/
theorem exists_stores {evaluation : Evaluation α} (hstore : store.WellFormed)
    (hsources : ∀ f, sources f → f < store.frames.size)
    (h : (inside store store (store.Reaches sources)).simulation.Relates 0 R evaluation evaluation)
    (hrun : evaluation store = some (result, after)) :
    ∃ made, (inside store store (store.Reaches sources)).Stores made after after ∧
      ∀ value, result = .ok value → R made value value := by
  have hstart : (inside store store (store.Reaches sources)).Stores 0 store store :=
    stores_inside hstore hstore (store.closed_reaches sources)
      (fun _ => hstore.lt_of_reaches hsources) (fun _ _ => rfl) rfl
  have hanswers := h store store hstart
  rw [hrun] at hanswers
  cases hanswers with
  | some hanswers =>
    cases hanswers with
    | error _ hstores _ => exact ⟨_, hstores, by simp⟩
    | value _ hstores hvalue =>
      refine ⟨_, hstores, fun value heq => ?_⟩
      cases heq
      exact hvalue

/-- An evaluation is the same for two stores if only frames that cannot be reached differ. -/
def Steady (store : Store) (sources : Nat → Prop) (evaluation : Evaluation Value) : Prop :=
  ∀ other, (inside store other (store.Reaches sources)).simulation.Relates 0
    (inside store other (store.Reaches sources)).simulation.Values evaluation evaluation

theorem steady_eval (store : Store) (depth frame : Nat) (node : Node) :
    Steady store (· = frame) (eval depth frame node) :=
  fun _ => Simulation.eval_relates depth ⟨.inl ⟨rfl, .source rfl⟩, rfl⟩

theorem steady_apply (store : Store) (depth : Nat) (closure : Closure) (arguments : List Value)
    (span : Span) :
    Steady store (Sources closure arguments) (apply depth (.closure closure) arguments span) := by
  intro other
  have hclosure : closure.Corresponds Eq
      ((inside store other (store.Reaches (Sources closure arguments))).Frames 0) closure :=
    ⟨rfl, rfl, rfl, .inl ⟨rfl, .source (.inl rfl)⟩⟩
  refine Simulation.apply_relates depth (.closure hclosure) (List.forall₂_same.mpr ?_) rfl
  intro argument hmem
  exact related_self (fun _ => rfl) fun f hf => .inl ⟨rfl, .source (.inr ⟨argument, hmem, hf⟩)⟩

variable {evaluation : Evaluation Value}

theorem Steady.encapsulates {result : Except EvalError Value} (h : Steady store sources evaluation)
    (hstore : store.WellFormed) (hsources : ∀ f, sources f → f < store.frames.size)
    (hrun : evaluation store = some (result, after)) : store.Encapsulates sources result after := by
  obtain ⟨made, hstores, hresult⟩ := exists_stores hstore hsources (h store) hrun
  refine ⟨hstores.confines, fun value hvalue frame => hstores.reaches fun f hf => ?_⟩
  exact (exists_frames_inside_iff hstores f).mp (captures_of_related (hresult value hvalue) hf)

theorem Steady.extends {result : Except EvalError Value} (h : Steady store sources evaluation)
    (hstore : store.WellFormed) (hsources : ∀ f, sources f → f < store.frames.size)
    (hrun : evaluation store = some (result, after)) : after.Extends store := by
  obtain ⟨made, hstores, -⟩ := exists_stores hstore hsources (h store) hrun
  exact hstores.extends

theorem Steady.ignores (h : Steady store sources evaluation) (hstore : store.WellFormed)
    (hsources : ∀ f, sources f → f < store.frames.size) {frame : Nat}
    (hlt : frame < store.frames.size) (hfree : ¬ store.Reaches sources frame) :
    Ignores evaluation store frame where
  unchanged _ _ hrun := (h.encapsulates hstore hsources hrun).kept frame hlt hfree
  unread := by
    intro name value hvalue
    have hsame : ∀ f, store.Reaches sources f →
        (store.set frame name value).frames[f]? = store.frames[f]? := by
      intro f hf
      have hne : frame ≠ f := by
        rintro rfl
        exact hfree hf
      rw [Store.set, Array.getElem?_modify, if_neg hne]
    have hstart := stores_inside hstore (hstore.set frame name hvalue)
      (store.closed_reaches sources) (fun _ => hstore.lt_of_reaches hsources) hsame rfl
    refine Option.rel_imp (h _ store _ hstart) fun first second hanswers => ?_
    cases hanswers with
    | error _ hstores herror => exact ⟨congrArg Except.error herror, hstores.agrees hfree hlt⟩
    | value _ hstores hrelated =>
      have hsizes : store.frames.size = (store.set frame name value).frames.size :=
        (Store.size_set ..).symm
      have hvalue := eq_of_related (fun hpair => ((frames_inside_iff hsizes).mp hpair).1) hrelated
      exact ⟨congrArg Except.ok hvalue, hstores.agrees hfree hlt⟩

end Pairing

namespace Store

/-- The second store comes after the first: nodes were evaluated, names were bound, and calls were
entered, some of which may not have come to an end. -/
inductive Leads : Store → Store → Prop where
  | refl {store : Store} : Leads store store
  | eval {store between after : Store} {depth frame : Nat} {node : Node}
      {result : Except EvalError Value} (h : Leads store between)
      (hframe : frame < between.frames.size)
      (heval : TinyLisp.eval depth frame node between = some (result, after)) : Leads store after
  | bind {store between : Store} {value : Value} (h : Leads store between) (frame : Nat)
      (name : String) (hvalue : value.Within between.frames.size) :
      Leads store (between.set frame name value)
  | enter {store between : Store} {closure : Closure} {arguments : List Value}
      (h : Leads store between) (hcall : between.CanCall closure arguments) :
      Leads store (between.entered closure arguments)

variable {store between after : Store}

theorem CanCall.wellFormed_entered {closure : Closure} {arguments : List Value}
    (h : store.CanCall closure arguments) (hstore : store.WellFormed) :
    (store.entered closure arguments).WellFormed :=
  hstore.enter h.closure h.arguments

theorem Extends.refl (h : store.WellFormed) : store.Extends store :=
  ⟨h, le_rfl, fun _ _ => rfl⟩

theorem Extends.trans (h : after.Extends between) (h' : between.Extends store) :
    after.Extends store where
  wellFormed := h.wellFormed
  size_le := le_trans h'.size_le h.size_le
  outer? frame hlt := by rw [h.outer? frame (lt_of_lt_of_le hlt h'.size_le), h'.outer? frame hlt]

theorem Leads.extends (h : store.Leads after) (hstore : store.WellFormed) :
    after.Extends store := by
  induction h with
  | refl => exact .refl hstore
  | @eval between after depth frame node result _ hframe heval ih =>
    have hsteady := Pairing.steady_eval between depth frame node
    exact (hsteady.extends ih.wellFormed (fun f hf => hf ▸ hframe) heval).trans ih
  | bind _ frame name hvalue ih =>
    refine .trans ⟨ih.wellFormed.set frame name hvalue, ?_, ?_⟩ ih
    · exact Nat.le_of_eq (size_set ..).symm
    · exact fun other _ => outer?_set ..
  | enter _ hcall ih =>
    refine .trans ⟨hcall.wellFormed_entered ih.wellFormed, ?_, ?_⟩ ih
    · exact Nat.le_trans (Nat.le_succ _) (Nat.le_of_eq (size_push ..).symm)
    · exact fun other hlt => outer?_push_of_lt hlt _

/-! ## Two calls -/

/-- The scope of a frame leads to frames that were made before it. -/
theorem Resolves.le (hstore : store.WellFormed) {frame owner : Nat} {name : String}
    (h : store.Resolves frame name owner) : owner ≤ frame :=
  hstore.le_of_outward h.outward

/-- A name in the scope of a frame belongs to this frame, or it is in the scope of the next. -/
theorem Resolves.eq_or_le (hstore : store.WellFormed) {frame outer owner : Nat} {name : String}
    (h : store.Resolves frame name owner) (houter : store.outer? frame = some outer) :
    owner = frame ∨ owner ≤ outer := by
  cases h with
  | here => exact .inl rfl
  | outer _ hother hrest =>
    cases houter.symm.trans hother
    exact .inr (hrest.le hstore)

theorem nextFrame_lt_entered (store : Store) (closure : Closure) (arguments : List Value) :
    store.nextFrame < (store.entered closure arguments).frames.size := by
  rw [entered, size_push]
  exact Nat.lt_succ_self _

/-- Neither frame is in the scope of the other. -/
def Apart (store : Store) (first second : Nat) : Prop :=
  first ≠ second ∧
    ∀ name, ¬ store.Resolves first name second ∧ ¬ store.Resolves second name first

/-- Two calls of one closure have frames of their own. -/
theorem CanCall.apart {closure : Closure} {arguments others : List Value} {last : Store}
    (h : store.CanCall closure arguments) (hstore : store.WellFormed)
    (hleads : (store.entered closure arguments).Leads between)
    (hcall : between.CanCall closure others) (hlast : (between.entered closure others).Leads last) :
    last.Apart store.nextFrame between.nextFrame := by
  have hbetween := hleads.extends (h.wellFormed_entered hstore)
  have hafter := hlast.extends (hcall.wellFormed_entered hbetween.wellFormed)
  have hlt : store.nextFrame < between.nextFrame :=
    Nat.lt_of_lt_of_le (nextFrame_lt_entered ..) hbetween.size_le
  have houter : last.outer? between.nextFrame = some closure.frame := by
    rw [hafter.outer? between.nextFrame (nextFrame_lt_entered ..), entered, outer?_push_nextFrame]
  refine ⟨Nat.ne_of_lt hlt, fun name => ⟨fun hresolves => ?_, fun hresolves => ?_⟩⟩
  · exact Nat.not_le_of_lt hlt (hresolves.le hafter.wellFormed)
  · rcases hresolves.eq_or_le hafter.wellFormed houter with heq | hle
    · exact Nat.ne_of_lt hlt heq
    · exact Nat.not_le_of_lt h.closure hle

/-- A frame that nothing leads to from a call is not touched by it, and the frames that are made
in the call do not lead there. -/
theorem CanCall.ignores {closure : Closure} {arguments : List Value}
    (h : store.CanCall closure arguments) (hstore : store.WellFormed) {frame : Nat}
    (hlt : frame < store.frames.size) (hfree : ¬ store.Reaches (Sources closure arguments) frame)
    (depth : Nat) (span : Span) :
    Ignores (TinyLisp.apply depth (.closure closure) arguments span) store frame ∧
      ∀ result after,
        TinyLisp.apply depth (.closure closure) arguments span store = some (result, after) →
        ∀ inner, store.Made after inner → ¬ after.Reaches (· = inner) frame := by
  have hsteady := Pairing.steady_apply store depth closure arguments span
  refine ⟨hsteady.ignores hstore (fun _ => h.lt_of_sources) hlt hfree, ?_⟩
  intro result after hrun inner hinner hreaches
  have hencapsulates := hsteady.encapsulates hstore (fun _ => h.lt_of_sources) hrun
  have hmade := hencapsulates.made frame (hreaches.mono fun f hf => hf ▸ hinner)
  exact hmade.elim hfree fun hmade => Nat.not_le_of_lt hlt hmade.1

/-- Evaluations and calls are encapsulated.  They change only frames that can be reached from where
they begin, and make nothing reachable but what was and the frames that they make; this holds of
errors as well.  Two calls of a closure have frames of their own.  A later call of any closure
neither reads nor changes the frame of a call that nothing leads to from there, and the closures
that it makes do not lead to that frame either. -/
theorem WellFormed.encapsulated (hstore : store.WellFormed) :
    (∀ depth frame node result after, frame < store.frames.size →
      TinyLisp.eval depth frame node store = some (result, after) →
      store.Encapsulates (· = frame) result after) ∧
    (∀ depth closure arguments span result after, store.CanCall closure arguments →
      TinyLisp.apply depth (.closure closure) arguments span store = some (result, after) →
      store.Encapsulates (Sources closure arguments) result after) ∧
    ∀ closure arguments between, store.CanCall closure arguments →
      (store.entered closure arguments).Leads between →
      (∀ depth span, arguments.length = closure.parameters.length →
        TinyLisp.apply depth (.closure closure) arguments span store =
          TinyLisp.eval depth store.nextFrame closure.body (store.entered closure arguments)) ∧
      (∀ others last, between.CanCall closure others →
        (between.entered closure others).Leads last →
        last.Apart store.nextFrame between.nextFrame) ∧
      ∀ depth other others span, between.CanCall other others →
        ¬ between.Reaches (Sources other others) store.nextFrame →
        Ignores (TinyLisp.apply depth (.closure other) others span) between store.nextFrame ∧
          ∀ result after,
            TinyLisp.apply depth (.closure other) others span between = some (result, after) →
            ∀ inner, between.Made after inner → ¬ after.Reaches (· = inner) store.nextFrame := by
  refine ⟨fun depth frame node result after hlt hrun => ?_,
    fun depth closure arguments span result after hcall hrun => ?_,
    fun closure arguments between hcall hleads => ⟨fun depth span hcount => ?_,
      fun others last hagain hlast => ?_, fun depth other others span hlater hfree => ?_⟩⟩
  · exact (Pairing.steady_eval store depth frame node).encapsulates hstore
      (fun f hf => hf ▸ hlt) hrun
  · exact (Pairing.steady_apply store depth closure arguments span).encapsulates hstore
      (fun _ => hcall.lt_of_sources) hrun
  · exact apply_closure depth store hcount span
  · exact hcall.apart hstore hleads hagain hlast
  · have hbetween := hleads.extends (hcall.wellFormed_entered hstore)
    have hlt : store.nextFrame < between.frames.size :=
      Nat.lt_of_lt_of_le (nextFrame_lt_entered ..) hbetween.size_le
    exact hlater.ignores hbetween.wellFormed hlt hfree depth span

/-- The closure that `(lambda (x) x)` makes in the first frame. -/
def keepX : Closure := ⟨0, ["x"], .symbol "x" ⟨12, 13⟩, 0⟩

/-- A store with one frame, which binds nothing. -/
def bare : Store := { empty.addRoot with closures := 1 }

/-- Two calls of `(lambda (x) x)`, and an unbound name. -/
theorem encapsulates_bare :
    bare.Encapsulates (· = 0) (.error ⟨.unboundName "y", ⟨0, 1⟩⟩) bare ∧
      bare.Encapsulates (Sources keepX [.number 1]) (.ok (.number 1))
        (bare.entered keepX [.number 1]) ∧
      ((bare.entered keepX [.number 1]).entered keepX [.number 2]).Apart 1 2 ∧
      Ignores (TinyLisp.apply 1 (.closure keepX) [.number 2] ⟨0, 3⟩)
        (bare.entered keepX [.number 1]) 1 := by
  have hbare : bare.WellFormed :=
    (WellFormed.empty.push (by simp) (ForClosures.empty.push (by simp [Bindings.get?]))).count 1
  have hcall : ∀ x, bare.CanCall keepX [.number x] := fun x =>
    ⟨by decide, List.forall_mem_singleton.mpr trivial⟩
  have hagain : ∀ x y, (bare.entered keepX [.number x]).CanCall keepX [.number y] := fun x y =>
    ⟨by simp [entered, keepX], List.forall_mem_singleton.mpr trivial⟩
  have hclosed : (bare.entered keepX [.number 1]).Closed (· = 0) := by
    refine ⟨?_, ?_⟩
    · rintro _ _ rfl houter
      cases houter
    · rintro _ _ _ _ rfl hvalue _
      cases hvalue
  have hsources : ∀ f, Sources keepX [.number 2] f → f = 0 := by
    rintro f (rfl | ⟨argument, hmem, closure, heq, -⟩)
    · rfl
    · cases List.mem_singleton.mp hmem
      cases heq
  have hfree : ¬ (bare.entered keepX [.number 1]).Reaches (Sources keepX [.number 2]) 1 :=
    fun h => absurd (h.of_closed hclosed hsources) (by decide)
  obtain ⟨heval, happly, htwo⟩ := hbare.encapsulated
  obtain ⟨-, hapart, hignores⟩ := htwo keepX [.number 1] _ (hcall 1) .refl
  exact ⟨heval 1 0 (.symbol "y" ⟨0, 1⟩) _ _ (by decide) (by with_unfolding_all rfl),
    happly 1 keepX [.number 1] ⟨0, 3⟩ _ _ (hcall 1) (by with_unfolding_all rfl),
    hapart [.number 2] _ (hagain 1 2) .refl,
    (hignores 1 keepX [.number 2] ⟨0, 3⟩ (hagain 1 2) hfree).1⟩

end Store
end TinyLisp
