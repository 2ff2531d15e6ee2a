import Mathlib.Data.Nat.Basic
import TinyLisp.Proofs.Simulation

/-!
# Frames in pairs

Two stores can hold the same frames at different places.  `Store.Mirrors` relates them by pairs of
frames that bind the same names to the same values, where a closure is the same if its frame is
paired with that of the other.  Frames without a partner may differ in any way.

A `Pairing` begins with such pairs, and pairs each frame that one run makes with the one that the
other run makes.  It is a simulation, so that evaluations in paired frames end alike, and what has
no partner is left alone.

* `Store.Reaches`: what can be reached from a frame, and sets of frames that nothing leads out of.
* `Store.Mirrors`, with one lemma for each operation of a store.
* `Pairing` and `Pairing.simulation`.
-/

namespace TinyLisp

/-! ## What a frame can reach -/

/-- The value is a closure over the frame. -/
def Value.Captures (value : Value) (frame : Nat) : Prop :=
  ∃ closure, value = .procedure (.closure closure) ∧ closure.frame = frame

namespace Store

/-- What can be reached from some frames: these frames, the frame that encloses one that can be
reached, and a frame that is captured by a closure which is bound in one that can be reached. -/
inductive Reaches (store : Store) (sources : Nat → Prop) : Nat → Prop where
  | source {frame : Nat} (h : sources frame) : Reaches store sources frame
  | outer {frame outer : Nat} (h : Reaches store sources frame)
      (houter : store.outer? frame = some outer) : Reaches store sources outer
  | captured {frame inner : Nat} {name : String} {value : Value} (h : Reaches store sources frame)
      (hvalue : store.get? frame name = some value) (hcaptures : value.Captures inner) :
      Reaches store sources inner

/-- Nothing leads out of these frames. -/
structure Closed (store : Store) (frames : Nat → Prop) : Prop where
  outer : ∀ {frame outer}, frames frame → store.outer? frame = some outer → frames outer
  captured : ∀ {frame name value inner}, frames frame → store.get? frame name = some value →
    value.Captures inner → frames inner

variable {store after : Store} {sources frames : Nat → Prop}

theorem closed_reaches (store : Store) (sources : Nat → Prop) :
    store.Closed (store.Reaches sources) where
  outer := .outer
  captured := .captured

/-- What can be reached is the least set of frames with the sources in it that nothing leads out
of. -/
theorem Reaches.of_closed (hclosed : store.Closed frames) (hsources : ∀ f, sources f → frames f)
    {frame : Nat} (h : store.Reaches sources frame) : frames frame := by
  induction h with
  | source h => exact hsources _ h
  | outer _ houter ih => exact hclosed.outer ih houter
  | captured _ hvalue hcaptures ih => exact hclosed.captured ih hvalue hcaptures

theorem Reaches.mono {wider : Nat → Prop} (hsources : ∀ f, sources f → wider f) {frame : Nat}
    (h : store.Reaches sources frame) : store.Reaches wider frame :=
  h.of_closed (closed_reaches store wider) fun f hf => .source (hsources f hf)

theorem get?_congr {frame : Nat} (h : after.frames[frame]? = store.frames[frame]?) (name : String) :
    after.get? frame name = store.get? frame name := by
  rw [get?, get?, h]

theorem outer?_congr {frame : Nat} (h : after.frames[frame]? = store.frames[frame]?) :
    after.outer? frame = store.outer? frame := by
  rw [outer?, outer?, h]

theorem outer?_eq_none {frame : Nat}
    (h : store.frames.size ≤ frame) : store.outer? frame = none := by
  rw [outer?, Array.getElem?_eq_none h]
  rfl

theorem get?_eq_none {frame : Nat}
    (h : store.frames.size ≤ frame) (name : String) : store.get? frame name = none := by
  rw [get?, Array.getElem?_eq_none h]

/-- Where nothing changes, nothing leads out that did not lead out before. -/
theorem Closed.congr (h : store.Closed frames)
    (hkept : ∀ f, frames f → after.frames[f]? = store.frames[f]?) : after.Closed frames where
  outer := by
    intro frame outer hframe houter
    rw [outer?_congr (hkept frame hframe)] at houter
    exact h.outer hframe houter
  captured := by
    intro frame name value inner hframe hvalue hcaptures
    rw [get?_congr (hkept frame hframe)] at hvalue
    exact h.captured hframe hvalue hcaptures

theorem WellFormed.lt_of_captures (h : store.WellFormed) {frame inner : Nat} {name : String}
    {value : Value} (hvalue : store.get? frame name = some value)
    (hcaptures : value.Captures inner) : inner < store.frames.size := by
  obtain ⟨closure, rfl, rfl⟩ := hcaptures
  exact h.within frame name _ hvalue

/-- Frames of a well-formed store reach frames of the store only. -/
theorem WellFormed.lt_of_reaches (h : store.WellFormed)
    (hsources : ∀ f, sources f → f < store.frames.size) {frame : Nat}
    (hreaches : store.Reaches sources frame) : frame < store.frames.size := by
  induction hreaches with
  | source hsource => exact hsources _ hsource
  | outer _ houter ih => exact Nat.lt_trans (h.outer_lt houter) ih
  | captured _ hvalue hcaptures _ => exact h.lt_of_captures hvalue hcaptures

theorem WellFormed.lt_of_reaches_frame (h : store.WellFormed) {root frame : Nat}
    (hroot : root < store.frames.size) (hreaches : store.Reaches (· = root) frame) :
    frame < store.frames.size := by
  refine h.lt_of_reaches ?_ hreaches
  rintro f rfl
  exact hroot

end Store

/-! ## Related bindings -/

theorem Option.rel_imp {α β : Type} {R Q : α → β → Prop} {a : Option α} {b : Option β}
    (h : Option.Rel R a b) (himp : ∀ a b, R a b → Q a b) : Option.Rel Q a b := by
  cases h with
  | none => exact .none
  | some h => exact .some (himp _ _ h)

theorem Option.eq_of_rel {α : Type} {R : α → α → Prop} (hR : ∀ a b, R a b → a = b) {a b : Option α}
    (h : Option.Rel R a b) : a = b := by
  cases h with
  | none => rfl
  | some h => rw [hR _ _ h]

/-- The same names, bound to related values. -/
def Bindings.Related (R : Closure → Closure → Prop) (bindings others : Bindings) : Prop :=
  ∀ name, Option.Rel (Value.Related R) (bindings.get? name) (others.get? name)

/-- The names of a class, each of which the second bindings have as `r` gives it, bound to related
values. -/
def Bindings.RelatedAlong (R : Closure → Closure → Prop) (r : String → String)
    (Class : String → Prop) (bindings others : Bindings) : Prop :=
  ∀ name, Class name → Option.Rel (Value.Related R) (bindings.get? name) (others.get? (r name))

namespace Bindings

variable {R Q : Closure → Closure → Prop} {r : String → String} {Class : String → Prop}
  {bindings others : Bindings}

theorem Related.mono (h : bindings.Related R others) (himp : ∀ c d, R c d → Q c d) :
    bindings.Related Q others :=
  fun name => Option.rel_imp (h name) fun _ _ hvalue => hvalue.mono himp

theorem related_iff_along :
    bindings.Related R others ↔ bindings.RelatedAlong R id (fun _ => True) others := by
  simp [Related, RelatedAlong]

theorem RelatedAlong.set (h : bindings.RelatedAlong R r Class others)
    (hinj : ∀ a b, Class a → Class b → (r a = r b ↔ a = b)) {name : String} (hname : Class name)
    {v w : Value} (hvalue : v.Related R w) :
    (bindings.set name v).RelatedAlong R r Class (others.set (r name) w) := by
  intro wanted hwanted
  rw [get?_set, get?_set]
  simp only [hinj name wanted hname hwanted]
  split
  · exact .some hvalue
  · exact h wanted hwanted

theorem Related.set (h : bindings.Related R others) (name : String) {v w : Value}
    (hvalue : v.Related R w) : (bindings.set name v).Related R (others.set name w) := by
  rw [related_iff_along] at h ⊢
  exact h.set (fun _ _ _ _ => Iff.rfl) trivial hvalue

theorem forall₂_zip {names : List String} (hnames : ∀ name ∈ names, Class name) {vs ws : List Value}
    (h : List.Forall₂ (Value.Related R) vs ws) :
    List.Forall₂ (fun a b : String × Value => Class a.1 ∧ b.1 = r a.1 ∧ a.2.Related R b.2)
      (names.zip vs) ((names.map r).zip ws) := by
  induction h generalizing names with
  | nil => simp
  | cons hvalue _ ih =>
    cases names with
    | nil => exact .nil
    | cons name names =>
      obtain ⟨hname, hnames⟩ := List.forall_mem_cons.mp hnames
      exact .cons ⟨hname, rfl, hvalue⟩ (ih hnames)

/-- Names bound in the same order to related values. -/
theorem relatedAlong_ofPairs (hinj : ∀ a b, Class a → Class b → (r a = r b ↔ a = b))
    {names : List String} (hnames : ∀ name ∈ names, Class name) {vs ws : List Value}
    (h : List.Forall₂ (Value.Related R) vs ws) :
    (ofPairs (names.zip vs)).RelatedAlong R r Class (ofPairs ((names.map r).zip ws)) := by
  refine List.rel_foldl ?_ (fun _ _ => .none) (forall₂_zip hnames h)
  rintro before after hbefore ⟨name, v⟩ ⟨_, w⟩ ⟨hname, rfl, hvalue⟩
  exact hbefore.set hinj hname hvalue

theorem related_ofPairs (names : List String) {vs ws : List Value}
    (h : List.Forall₂ (Value.Related R) vs ws) :
    (ofPairs (names.zip vs)).Related R (ofPairs (names.zip ws)) := by
  have halong : (ofPairs (names.zip vs)).RelatedAlong R id (fun _ => True)
      (ofPairs ((names.map id).zip ws)) :=
    relatedAlong_ofPairs (fun _ _ _ _ => Iff.rfl) (fun _ _ => trivial) h
  rwa [List.map_id, ← related_iff_along] at halong

end Bindings

/-! ## Stores in pairs -/

/-- Closures that are the same, up to the frames in pairs and the identities. -/
structure Closure.Corresponds (same pairs : Nat → Nat → Prop) (c d : Closure) : Prop where
  identity : same c.identity d.identity
  parameters : c.parameters = d.parameters
  body : c.body = d.body
  frame : pairs c.frame d.frame

/-- Frames with corresponding bindings and enclosing frames. -/
structure Frame.Corresponds (same pairs : Nat → Nat → Prop) (a b : Frame) : Prop where
  outer : Option.Rel pairs a.outer b.outer
  bindings : a.bindings.Related (Closure.Corresponds same pairs) b.bindings

theorem Closure.Corresponds.mono {same pairs more : Nat → Nat → Prop} {c d : Closure}
    (h : c.Corresponds same pairs d) (himp : ∀ f g, pairs f g → more f g) :
    c.Corresponds same more d :=
  { h with frame := himp _ _ h.frame }

/-- Values that correspond are shown as the same text. -/
theorem Value.Related.render_eq {same pairs : Nat → Nat → Prop} {x y : Value}
    (h : x.Related (Closure.Corresponds same pairs) y) : x.render = y.render := by
  cases h with
  | number => rfl
  | procedure h =>
    cases h with
    | builtin => rfl
    | closure h => simp only [render, Procedure.render, Closure.render, h.parameters, h.body]

theorem Frame.Corresponds.mono {same pairs more : Nat → Nat → Prop} {a b : Frame}
    (h : a.Corresponds same pairs b) (himp : ∀ f g, pairs f g → more f g) :
    a.Corresponds same more b where
  outer := Option.rel_imp h.outer himp
  bindings := h.bindings.mono fun _ _ hclosure => hclosure.mono himp

namespace Store

/-- The frames in pairs are frames of the stores and correspond, and no frame is in two pairs. -/
structure Mirrors (same pairs : Nat → Nat → Prop) (S T : Store) : Prop where
  frame : ∀ {f g}, pairs f g →
    ∃ a b, S.frames[f]? = some a ∧ T.frames[g]? = some b ∧ a.Corresponds same pairs b
  unique : ∀ {f g f' g'}, pairs f g → pairs f' g' → (f = f' ↔ g = g')

namespace Mirrors

variable {same pairs : Nat → Nat → Prop} {S T : Store} {f g : Nat}

theorem lt_left (h : S.Mirrors same pairs T) (hpair : pairs f g) : f < S.frames.size := by
  obtain ⟨a, b, ha, -, -⟩ := h.frame hpair
  exact (Array.getElem?_eq_some_iff.mp ha).1

theorem lt_right (h : S.Mirrors same pairs T) (hpair : pairs f g) : g < T.frames.size := by
  obtain ⟨a, b, -, hb, -⟩ := h.frame hpair
  exact (Array.getElem?_eq_some_iff.mp hb).1

theorem outer? (h : S.Mirrors same pairs T) (hpair : pairs f g) :
    Option.Rel pairs (S.outer? f) (T.outer? g) := by
  obtain ⟨a, b, ha, hb, hframe⟩ := h.frame hpair
  simpa [Store.outer?, ha, hb] using hframe.outer

theorem get? (h : S.Mirrors same pairs T) (hpair : pairs f g) (name : String) :
    Option.Rel (Value.Related (Closure.Corresponds same pairs)) (S.get? f name)
      (T.get? g name) := by
  obtain ⟨a, b, ha, hb, hframe⟩ := h.frame hpair
  simpa [Store.get?, ha, hb] using hframe.bindings name

/-- A name is found in frames that are in a pair. -/
theorem find? (h : S.Mirrors same pairs T) (hS : S.WellFormed) (hT : T.WellFormed)
    (hpair : pairs f g) (name : String) :
    Option.Rel pairs (S.find? f name) (T.find? g name) := by
  induction f using Nat.strongRecOn generalizing g with
  | ind f ih =>
    rw [hS.find?_eq, hT.find?_eq]
    match hx : S.get? f name, hy : T.get? g name, h.get? hpair name with
    | some x, some y, .some _ => exact .some hpair
    | none, none, .none =>
      match ho : S.outer? f, ho' : T.outer? g, h.outer? hpair with
      | none, none, .none => exact .none
      | some outer, some other, .some houter => exact ih outer (hS.outer_lt ho) houter

/-- Nothing leads out of the frames that have a partner. -/
theorem closed (h : S.Mirrors same pairs T) : S.Closed fun f => ∃ g, pairs f g where
  outer := by
    rintro frame outer ⟨g, hpair⟩ houter
    have hrel := h.outer? hpair
    rw [houter] at hrel
    generalize T.outer? g = other at hrel
    cases hrel with
    | some houter => exact ⟨_, houter⟩
  captured := by
    rintro frame name value inner ⟨g, hpair⟩ hvalue ⟨closure, rfl, rfl⟩
    have hrel := h.get? hpair name
    rw [hvalue] at hrel
    generalize T.get? g name = other at hrel
    cases hrel with
    | some hrelated =>
      cases hrelated with
      | procedure hprocedure =>
        cases hprocedure with
        | closure hclosure => exact ⟨_, hclosure.frame⟩

/-- Binding a name in both frames of a pair. -/
theorem set (h : S.Mirrors same pairs T) (hpair : pairs f g) (name : String) {x y : Value}
    (hvalue : x.Related (Closure.Corresponds same pairs) y) :
    (S.set f name x).Mirrors same pairs (T.set g name y) where
  unique := h.unique
  frame := by
    intro f' g' hother
    obtain ⟨a, b, ha, hb, hframe⟩ := h.frame hother
    have heq := h.unique hpair hother
    simp only [Store.set, Array.getElem?_modify]
    by_cases hf : f = f'
    · rw [if_pos hf, if_pos (heq.mp hf), ha, hb]
      exact ⟨_, _, rfl, rfl, hframe.outer, hframe.bindings.set name hvalue⟩
    · rw [if_neg hf, if_neg fun hg => hf (heq.mpr hg)]
      exact ⟨a, b, ha, hb, hframe⟩

/-- Frames that do not change still correspond. -/
theorem congr (h : S.Mirrors same pairs T) {S' T' : Store}
    (hleft : ∀ f g, pairs f g → S'.frames[f]? = S.frames[f]?)
    (hright : ∀ f g, pairs f g → T'.frames[g]? = T.frames[g]?) :
    S'.Mirrors same pairs T' where
  unique := h.unique
  frame := by
    intro f g hpair
    rw [hleft f g hpair, hright f g hpair]
    exact h.frame hpair

/-- One more pair, of new frames. -/
theorem push (h : S.Mirrors same pairs T) {more : Nat → Nat → Prop}
    (hmore : ∀ f g, more f g ↔ pairs f g ∨ f = S.nextFrame ∧ g = T.nextFrame) {a b : Frame}
    (hframe : a.Corresponds same pairs b) : (S.push a).Mirrors same more (T.push b) where
  frame := by
    intro f g hpair
    have himp : ∀ f g, pairs f g → more f g := fun f g hold => (hmore f g).mpr (.inl hold)
    rcases (hmore f g).mp hpair with hold | ⟨rfl, rfl⟩
    · obtain ⟨c, d, hc, hd, hold'⟩ := h.frame hold
      rw [getElem?_push_of_lt (h.lt_left hold), getElem?_push_of_lt (h.lt_right hold)]
      exact ⟨c, d, hc, hd, hold'.mono himp⟩
    · exact ⟨a, b, by simp, by simp, hframe.mono himp⟩
  unique := by
    intro f g f' g' hpair hother
    rcases (hmore f g).mp hpair with hold | ⟨rfl, rfl⟩ <;>
      rcases (hmore f' g').mp hother with hold' | ⟨rfl, rfl⟩
    · exact h.unique hold hold'
    · have hf := Nat.ne_of_lt (h.lt_left hold)
      have hg := Nat.ne_of_lt (h.lt_right hold)
      exact iff_of_false hf hg
    · have hf := Nat.ne_of_gt (h.lt_left hold')
      have hg := Nat.ne_of_gt (h.lt_right hold')
      exact iff_of_false hf hg
    · exact iff_of_true rfl rfl

end Mirrors

/-- A value that corresponds to another captures a frame of the store, if it captures one. -/
theorem Mirrors.within {same pairs : Nat → Nat → Prop} {S T : Store}
    (h : S.Mirrors same pairs T) {x y : Value}
    (hvalue : x.Related (Closure.Corresponds same pairs) y) :
    x.Within S.frames.size ∧ y.Within T.frames.size := by
  cases hvalue with
  | number => exact ⟨trivial, trivial⟩
  | procedure hprocedure =>
    cases hprocedure with
    | builtin => exact ⟨trivial, trivial⟩
    | closure hclosure => exact ⟨h.lt_left hclosure.frame, h.lt_right hclosure.frame⟩

theorem Mirrors.forall_within {same pairs : Nat → Nat → Prop} {S T : Store}
    (h : S.Mirrors same pairs T) {xs ys : List Value}
    (hvalues : List.Forall₂ (Value.Related (Closure.Corresponds same pairs)) xs ys) :
    (∀ x ∈ xs, x.Within S.frames.size) ∧ ∀ y ∈ ys, y.Within T.frames.size := by
  induction hvalues with
  | nil => simp
  | cons hvalue _ ih =>
    obtain ⟨hx, hy⟩ := h.within hvalue
    exact ⟨List.forall_mem_cons.mpr ⟨hx, ih.1⟩, List.forall_mem_cons.mpr ⟨hy, ih.2⟩⟩

end Store

/-! ## Runs in pairs -/

/-- The stores where two runs begin, which of their frames correspond, and which identities of
closures do. -/
structure Pairing where
  left : Store
  right : Store
  pairs : Nat → Nat → Prop
  same : Nat → Nat → Prop

namespace Pairing

/-- The frames in pairs when both runs have made so many frames. -/
def Frames (p : Pairing) (made : Nat) (f g : Nat) : Prop :=
  p.pairs f g ∨ ∃ i < made, f = p.left.nextFrame + i ∧ g = p.right.nextFrame + i

variable {p : Pairing} {made more : Nat} {f g : Nat} {S T : Store}

theorem Frames.mono (hle : made ≤ more) (h : p.Frames made f g) : p.Frames more f g := by
  rcases h with h | ⟨i, hlt, h⟩
  · exact .inl h
  · exact .inr ⟨i, Nat.lt_of_lt_of_le hlt hle, h⟩

theorem frames_zero : p.Frames 0 = p.pairs := by
  funext f g
  simp [Frames]

theorem frames_succ_iff :
    p.Frames (made + 1) f g ↔
      p.Frames made f g ∨ f = p.left.nextFrame + made ∧ g = p.right.nextFrame + made := by
  constructor
  · rintro (h | ⟨i, hlt, h⟩)
    · exact .inl (.inl h)
    · rcases Nat.lt_succ_iff_lt_or_eq.mp hlt with hlt | rfl
      · exact .inl (.inr ⟨i, hlt, h⟩)
      · exact .inr h
  · rintro (h | h)
    · exact h.mono (Nat.le_succ made)
    · exact .inr ⟨made, Nat.lt_succ_self made, h⟩

/-- The store has as many new frames as were made, the frames before them are enclosed as before,
and those without a partner are as before. -/
structure Keeps (partnered : Nat → Prop) (made : Nat) (before after : Store) : Prop where
  size : after.frames.size = before.frames.size + made
  outer? : ∀ frame < before.frames.size, after.outer? frame = before.outer? frame
  kept : ∀ frame < before.frames.size, ¬ partnered frame →
    after.frames[frame]? = before.frames[frame]?

namespace Keeps

variable {partnered : Nat → Prop} {before after : Store}

theorem refl (partnered : Nat → Prop) (store : Store) : Keeps partnered 0 store store :=
  ⟨rfl, fun _ _ => rfl, fun _ _ _ => rfl⟩

theorem count (h : Keeps partnered made before after) (closures : Nat) :
    Keeps partnered made before { after with closures } :=
  ⟨h.size, h.outer?, h.kept⟩

/-- Only frames with a partner, and new ones, are bound in. -/
theorem set (h : Keeps partnered made before after) {frame : Nat}
    (hframe : partnered frame ∨ before.frames.size ≤ frame) (name : String) (value : Value) :
    Keeps partnered made before (after.set frame name value) where
  size := by rw [Store.size_set, h.size]
  outer? other hlt := by rw [Store.outer?_set, h.outer? other hlt]
  kept other hlt hfree := by
    have hne : frame ≠ other := by
      rintro rfl
      exact hframe.elim hfree (Nat.not_le_of_lt hlt)
    rw [Store.set, Array.getElem?_modify, if_neg hne, h.kept other hlt hfree]

theorem push (h : Keeps partnered made before after) (frame : Frame) :
    Keeps partnered (made + 1) before (after.push frame) := by
  have hold : ∀ other < before.frames.size, other < after.nextFrame := by
    intro other hlt
    rw [Store.nextFrame, h.size]
    omega
  refine ⟨by rw [Store.size_push, h.size, Nat.add_assoc], fun other hlt => ?_,
    fun other hlt hfree => ?_⟩
  · rw [Store.outer?_push_of_lt (hold other hlt), h.outer? other hlt]
  · rw [Store.getElem?_push_of_lt (hold other hlt), h.kept other hlt hfree]

end Keeps

/-- The stores when both runs have made so many frames: the frames in pairs correspond, and those
without a partner are as they were. -/
structure Stores (p : Pairing) (made : Nat) (S T : Store) : Prop where
  wellFormed_left : S.WellFormed
  wellFormed_right : T.WellFormed
  mirrors : S.Mirrors p.same (p.Frames made) T
  keeps_left : Keeps (fun f => ∃ g, p.pairs f g) made p.left S
  keeps_right : Keeps (fun g => ∃ f, p.pairs f g) made p.right T
  /-- Closures that are made from now on have identities that correspond. -/
  same : ∀ i, p.same (S.closures + i) (T.closures + i)

namespace Stores

theorem nextFrame_left (h : p.Stores made S T) : S.nextFrame = p.left.nextFrame + made :=
  h.keeps_left.size

theorem nextFrame_right (h : p.Stores made S T) : T.nextFrame = p.right.nextFrame + made :=
  h.keeps_right.size

theorem count (h : p.Stores made S T) :
    p.Stores made { S with closures := S.closures + 1 } { T with closures := T.closures + 1 } where
  wellFormed_left := h.wellFormed_left.count _
  wellFormed_right := h.wellFormed_right.count _
  mirrors := h.mirrors.congr (fun _ _ _ => rfl) (fun _ _ _ => rfl)
  keeps_left := h.keeps_left.count _
  keeps_right := h.keeps_right.count _
  same i := by
    simpa only [Nat.add_assoc] using h.same (1 + i)

theorem set (h : p.Stores made S T) (hpair : p.Frames made f g) (name : String) {x y : Value}
    (hvalue : x.Related (Closure.Corresponds p.same (p.Frames made)) y) :
    p.Stores made (S.set f name x) (T.set g name y) := by
  obtain ⟨hx, hy⟩ := h.mirrors.within hvalue
  have hleft : (∃ g, p.pairs f g) ∨ p.left.frames.size ≤ f := by
    rcases hpair with hpair | ⟨i, -, rfl, -⟩
    · exact .inl ⟨g, hpair⟩
    · exact .inr (Nat.le_add_right _ i)
  have hright : (∃ f, p.pairs f g) ∨ p.right.frames.size ≤ g := by
    rcases hpair with hpair | ⟨i, -, -, rfl⟩
    · exact .inl ⟨f, hpair⟩
    · exact .inr (Nat.le_add_right _ i)
  exact {
    wellFormed_left := h.wellFormed_left.set f name hx
    wellFormed_right := h.wellFormed_right.set g name hy
    mirrors := h.mirrors.set hpair name hvalue
    keeps_left := h.keeps_left.set hleft name x
    keeps_right := h.keeps_right.set hright name y
    same := h.same }

/-- The frames of two calls become a pair. -/
theorem enter (h : p.Stores made S T) {names : List String} {xs ys : List Value}
    (hpair : p.Frames made f g)
    (hvalues : List.Forall₂ (Value.Related (Closure.Corresponds p.same (p.Frames made))) xs ys) :
    p.Stores (made + 1) (S.push ⟨some f, Bindings.ofPairs (names.zip xs)⟩)
      (T.push ⟨some g, Bindings.ofPairs (names.zip ys)⟩) := by
  obtain ⟨hxs, hys⟩ := h.mirrors.forall_within hvalues
  have hmore : ∀ a b, p.Frames (made + 1) a b ↔
      p.Frames made a b ∨ a = S.nextFrame ∧ b = T.nextFrame := by
    intro a b
    rw [h.nextFrame_left, h.nextFrame_right, frames_succ_iff]
  have hbindings := Bindings.related_ofPairs names hvalues
  exact {
    wellFormed_left := h.wellFormed_left.enter (h.mirrors.lt_left hpair) hxs
    wellFormed_right := h.wellFormed_right.enter (h.mirrors.lt_right hpair) hys
    mirrors := h.mirrors.push hmore ⟨.some hpair, hbindings⟩
    keeps_left := h.keeps_left.push _
    keeps_right := h.keeps_right.push _
    same := h.same }

theorem frames_enter (h : p.Stores made S T) : p.Frames (made + 1) S.nextFrame T.nextFrame :=
  frames_succ_iff.mpr (.inr ⟨h.nextFrame_left, h.nextFrame_right⟩)

end Stores

/-- Two runs of the same nodes in frames that are in pairs. -/
def simulation (p : Pairing) : Simulation Nat where
  Stores := p.Stores
  Closures made := Closure.Corresponds p.same (p.Frames made)
  Names made f a g b := p.Frames made f g ∧ a = b
  Nodes made f n g m := p.Frames made f g ∧ n = m
  Lambdas made f names body g others code := p.Frames made f g ∧ names = others ∧ body = code
  Spans := Eq
  Errors := Eq
  closures_mono hle h := h.mono fun _ _ => Frames.mono hle
  names_mono hle h := ⟨h.1.mono hle, h.2⟩
  nodes_mono hle h := ⟨h.1.mono hle, h.2⟩
  errors_same _ h := by rw [h]
  errors_unbound hspan h := by rw [hspan, h.2]
  nodes_matches := by
    rintro made f n g m ⟨hpair, rfl⟩
    refine Node.matches_refl (fun _ => rfl) (fun _ => ?_) (fun _ => ?_) (fun _ _ => ?_)
      (fun _ => rfl) n
    · exact ⟨hpair, rfl⟩
    · exact ⟨hpair, rfl⟩
    · exact ⟨hpair, rfl, rfl⟩
  length_eq h := congrArg List.length h.parameters
  find? := by
    rintro made S T f a g b h ⟨hpair, rfl⟩
    have hfind := h.mirrors.find? h.wellFormed_left h.wellFormed_right hpair a
    exact Option.rel_imp hfind fun _ _ howner => ⟨howner, rfl⟩
  get? := by
    rintro made S T f a g b h ⟨hpair, rfl⟩
    exact h.mirrors.get? hpair a
  set := by
    rintro made S T f a g b x y h ⟨hpair, rfl⟩ hvalue
    exact h.set hpair a hvalue
  made := by
    rintro made S T f names body g others code h ⟨hpair, rfl, rfl⟩
    exact ⟨h.same 0, rfl, rfl, hpair⟩
  count h := h.count
  enter := by
    rintro made S T ⟨i, names, body, f⟩ ⟨j, others, code, g⟩ xs ys h hclosure hvalues -
    obtain ⟨-, hnames, hbody, hpair⟩ := hclosure
    cases hnames
    cases hbody
    exact ⟨made + 1, Nat.le_succ made, h.enter hpair hvalues, h.frames_enter, rfl⟩

end Pairing
end TinyLisp
